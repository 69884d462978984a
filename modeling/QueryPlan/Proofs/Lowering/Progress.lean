import QueryPlan.Proofs.Lowering.Pattern
import QueryPlan.Proofs.Lowering.Steps

/-!
# Between the clauses of a query

`SingleQuery.draftAfter` is the draft that the first clauses of a query leave. What such a draft has
on top is kept by the clauses after it (`Plan.KeptIn`): it stays a node of what they make. Only a
match can be taken apart, by a match that comes right after it, and then a match over the same input
that binds the same variables and perhaps more takes its place.
-/

namespace QueryPlan

/-! ## Runs in parts -/

namespace Clause

variable {catalog : Catalog} {source : GraphSource} {home : NamespaceId} {index n : Nat}
  {top : Option Plan} {c : Clause} {cs ds : List Clause} {r : Option Plan × Nat}

theorem steps_of_step {mid : Option Plan} {m : Nat}
    (h : c.step catalog source home top n = .ok (mid, m)) :
    Clause.steps catalog source home index top n (c :: cs) =
      Clause.steps catalog source home (index + 1) mid m cs := by
  rw [Clause.steps, h]

theorem steps_append : Clause.steps catalog source home index top n (cs ++ ds) =
    Clause.steps catalog source home index top n cs >>= fun r =>
      Clause.steps catalog source home (index + cs.length) r.1 r.2 ds := by
  induction cs generalizing index top n with
  | nil => rfl
  | cons c cs ih =>
      rw [List.cons_append, Clause.steps, Clause.steps]
      cases c.step catalog source home top n with
      | error e => rfl
      | ok r =>
          simp only [ih, List.length_cons]
          rw [Nat.add_assoc, Nat.add_comm 1]

/-- Where a run starts to count matters to its errors only. -/
theorem steps_index (h : Clause.steps catalog source home index top n cs = .ok r) (start : Nat) :
    Clause.steps catalog source home start top n cs = .ok r := by
  induction cs generalizing index top n start with
  | nil => exact h
  | cons c cs ih =>
      obtain ⟨mid, m, hstep, h⟩ := steps_cons_eq_ok h
      rw [steps_of_step hstep]
      exact ih h (start + 1)

/-- A run is what comes before a clause, the clause, and what comes after it. -/
theorem steps_at {i : Nat} (hget : cs[i]? = some c)
    (h : Clause.steps catalog source home index top n cs = .ok r) :
    ∃ before k after m, Clause.steps catalog source home index top n (cs.take i) = .ok (before, k) ∧
      c.step catalog source home before k = .ok (after, m) ∧
      Clause.steps catalog source home (index + i + 1) after m (cs.drop (i + 1)) = .ok r := by
  obtain ⟨hi, -⟩ := List.getElem?_eq_some_iff.mp hget
  rw [← take_append_cons_drop hget, steps_append] at h
  obtain ⟨⟨before, k⟩, hbefore, h⟩ := bind_eq_ok.mp h
  obtain ⟨after, m, hstep, h⟩ := steps_cons_eq_ok h
  rw [List.length_take, Nat.min_eq_left (Nat.le_of_lt hi)] at h
  exact ⟨before, k, after, m, hbefore, hstep, h⟩

theorem steps_take_succ {i k m : Nat} {before after : Option Plan} (hget : cs[i]? = some c)
    (hbefore : Clause.steps catalog source home index top n (cs.take i) = .ok (before, k))
    (hstep : c.step catalog source home before k = .ok (after, m)) :
    Clause.steps catalog source home index top n (cs.take (i + 1)) = .ok (after, m) := by
  rw [List.take_add_one, hget, Option.toList_some, steps_append, hbefore, ok_bind,
    steps_of_step hstep]
  rfl

end Clause

/-- The draft that the first clauses of a query leave. -/
def SingleQuery.draftAfter (q : SingleQuery) (catalog : Catalog) (home : NamespaceId)
    (allowSubstitution : Bool) (count : Nat) : Except Error Draft := do
  let source ← GraphSource.resolve catalog home allowSubstitution (mentionedLabels q.clauses)
  match Drafting.clauses home 0 (q.clauses.take count) (Draft.empty catalog source) with
  | .ok _ d => return d
  | .error e _ => throw e

theorem SingleQuery.draftAfter_eq {q : SingleQuery} {catalog : Catalog} {home : NamespaceId}
    {allow : Bool} {source : GraphSource} {count n : Nat} {top : Option Plan}
    (hsource : GraphSource.resolve catalog home allow (mentionedLabels q.clauses) = .ok source)
    (h : Clause.steps catalog source home 0 none 0 (q.clauses.take count) = .ok (top, n)) :
    q.draftAfter catalog home allow count = .ok (.between catalog source top
      ((q.clauses.take count).foldl Clause.kindAfter none) n) := by
  have hrun : Drafting.outcome (Drafting.clauses home 0 (q.clauses.take count))
      (.between catalog source none none 0) = .ok ((), .between catalog source top
        ((q.clauses.take count).foldl Clause.kindAfter none) n) := by
    rw [Drafting.outcome_clauses, h, ok_bind]
  rw [SingleQuery.draftAfter, hsource, ok_bind, Draft.empty_eq_between,
    Drafting.outcome_eq_ok.mp hrun]
  rfl

/-! ## Plans that stay -/

namespace Plan

/-- A node of the plan has this operator and reads these plans. -/
def Holds (p : Plan) (op : Op) (inputs : List Plan) : Prop :=
  ∃ n : Plan, n.IsNodeOf p ∧ n.op = op ∧ n.inputs = inputs

/-- The plan is still there, as a node or as a match that binds what it binds and more. -/
inductive KeptIn (p q : Plan) : Prop
  | node : q.Holds p.op p.inputs → KeptIn p q
  | extended {bindings more : List Binding} : p.op = .bind bindings →
      q.Holds (.bind (bindings ++ more)) p.inputs → KeptIn p q

variable {n p q r base : Plan} {op : Op} {inputs : List Plan}

theorem ReadBy.isNodeOf (h : base.ReadBy p) : base.IsNodeOf p := by
  induction h with
  | self => exact .self base
  | @read input p op _ _ _ hnode ih =>
      obtain ⟨s, m, rfl, -⟩ := (yields_rebuild op _ _).result hnode
      exact .input ih List.mem_cons_self

theorem isNodeOf_toModel {target : Model} {operation : QueryKind}
    (h : p.toModel target operation = .ok q) : p.IsNodeOf q := by
  unfold toModel at h
  split at h
  · cases h
    exact .self p
  · obtain rfl := (yields_transform _ _ _).result h
    exact .input (.self p) List.mem_cons_self

theorem holds_self (p : Plan) : p.Holds p.op p.inputs := ⟨p, .self p, rfl, rfl⟩

theorem Holds.isNodeOf (h : p.Holds op inputs) (hp : p.IsNodeOf q) : q.Holds op inputs := by
  obtain ⟨n, hn, hop, hinputs⟩ := h
  exact ⟨n, hn.trans hp, hop, hinputs⟩

/-- The tag of a plan does not matter to its nodes. -/
theorem Holds.tagWith (h : p.Holds op inputs) (tag : Nat) : (p.tagWith tag).Holds op inputs := by
  obtain ⟨n, hn, rfl, rfl⟩ := h
  cases hn with
  | self => exact ⟨_, .self _, rfl, rfl⟩
  | input hn hmem => exact ⟨n, .input hn hmem, rfl, rfl⟩

/-- What a kept plan reads is kept as it is. -/
theorem KeptIn.exists_inputs (h : p.KeptIn q) : ∃ op, q.Holds op p.inputs := by
  cases h with
  | node h => exact ⟨_, h⟩
  | extended _ h => exact ⟨_, h⟩

/-- A node of a kept plan is the plan itself, or it stays. -/
theorem Holds.keptIn (h : p.Holds op inputs) (hp : p.KeptIn q) :
    (op = p.op ∧ inputs = p.inputs) ∨ q.Holds op inputs := by
  obtain ⟨n, hn, rfl, rfl⟩ := h
  cases hn with
  | self => exact Or.inl ⟨rfl, rfl⟩
  | input hn hmem =>
      obtain ⟨_, m, hm, -, hinputs⟩ := hp.exists_inputs
      rw [← hinputs] at hmem
      exact Or.inr ⟨n, (IsNodeOf.input hn hmem).trans hm, rfl, rfl⟩

namespace KeptIn

theorem of_isNodeOf (h : p.IsNodeOf q) : p.KeptIn q := .node (p.holds_self.isNodeOf h)

theorem isNodeOf (h : p.KeptIn q) (hq : q.IsNodeOf r) : p.KeptIn r := by
  cases h with
  | node h => exact .node (h.isNodeOf hq)
  | extended hop h => exact .extended hop (h.isNodeOf hq)

theorem tagWith (h : p.KeptIn q) (tag : Nat) : p.KeptIn (q.tagWith tag) := by
  cases h with
  | node h => exact .node (h.tagWith tag)
  | extended hop h => exact .extended hop (h.tagWith tag)

/-- A match that is kept is one that binds what it binds, and perhaps more. -/
theorem holds_bind {bindings : List Binding} (h : p.KeptIn q) (hop : p.op = .bind bindings) :
    ∃ more, q.Holds (.bind (bindings ++ more)) p.inputs := by
  cases h with
  | node h => exact ⟨[], by rwa [List.append_nil, ← hop]⟩
  | extended hbind h =>
      rw [hop] at hbind
      cases hbind
      exact ⟨_, h⟩

theorem trans (hp : p.KeptIn q) (hq : q.KeptIn r) : p.KeptIn r := by
  cases hp with
  | node h =>
      rcases h.keptIn hq with ⟨hop, hinputs⟩ | hstays
      · cases hq with
        | node h => exact .node (hop ▸ hinputs ▸ h)
        | extended hbind h => exact .extended (hop.trans hbind) (hinputs ▸ h)
      · exact .node hstays
  | @extended bindings more hbind h =>
      rcases h.keptIn hq with ⟨hop, hinputs⟩ | hstays
      · cases hq with
        | node h => exact .extended hbind (hop ▸ hinputs ▸ h)
        | @extended bound further hbound h =>
            -- Both times the match was taken apart: the second one starts from all of the first.
            rw [← hop] at hbound
            cases hbound
            rw [List.append_assoc, ← hinputs] at h
            exact .extended hbind h
      · exact .extended hbind hstays

end KeptIn

/-- What a match makes keeps the plan it extends. -/
theorem Reachable.keptIn_extendMatch {calls : List Binding} (h : Reachable p)
    (hmade : p.extendMatch calls = .ok q) : p.KeptIn q := by
  obtain ⟨-, base, bound, hbase, hmade⟩ := extendMatch_eq_ok.mp hmade
  obtain rfl := (yields_patternMatch base _).result hmade
  obtain ⟨more, hmore⟩ := Binding.prefix_extend bound calls
  unfold Drafting.matchBase at hbase
  split at hbase
  · next bindings hop =>
      obtain ⟨input, hinput⟩ := h.bind_inputs hop
      rw [hinput] at hbase
      cases hbase
      rw [← hmore]
      exact .extended hop ⟨_, .self _, rfl, hinput.symm⟩
  · split at hbase
    · cases hbase
      exact .of_isNodeOf (.input (.self p) List.mem_cons_self)
    · cases hbase

end Plan

/-! ## Steps keep the plan so far -/

section Steps

variable {catalog : Catalog} {source : GraphSource} {home : NamespaceId} {q : Plan}

/-- A write keeps what it reads. -/
theorem Plan.ReadBy.keptIn_modify {input p : Plan} {entity : Entity} {write : Write}
    {targets : List Binding} (h : q.ReadBy input)
    (hp : Plan.modify entity input write (targets.map Binding.name) (targets.map Binding.expr) =
      .ok p) : q.KeptIn p := by
  obtain rfl := (Plan.yields_modify entity input write targets).result hp
  exact .of_isNodeOf (.input h.isNodeOf List.mem_cons_self)

theorem GraphSource.keptIn_insert {p : Plan} {nodes : List (String × Node)}
    {edges : List BoundEdge} (h : source.insert (some q) nodes edges = .ok p) : q.KeptIn p := by
  unfold GraphSource.insert at h
  split at h
  · cases h
  · obtain ⟨entity, -, h⟩ := bind_eq_ok.mp h
    obtain ⟨input, hinput, h⟩ := bind_eq_ok.mp h
    obtain ⟨columns, -, hinput⟩ := bind_eq_ok.mp hinput
    have hread := (Plan.ReadBy.self.yields_projectColumns columns).result hinput
    have hnothing : Plan.modify entity input .insert (([] : List Binding).map Binding.name)
      (([] : List Binding).map Binding.expr) = .ok p := h
    exact hread.keptIn_modify hnothing

theorem GraphSource.keptIn_write {p : Plan} {write : Write} {queued : List (Option String × Expr)}
    (h : source.write (some q) write queued = .ok p) : q.KeptIn p := by
  unfold GraphSource.write at h
  split at h
  · cases h
  · obtain ⟨entity, -, h⟩ := bind_eq_ok.mp h
    obtain ⟨input, hinput, h⟩ := bind_eq_ok.mp h
    cases hinput
    obtain ⟨targets, -, h⟩ := bind_eq_ok.mp h
    exact Plan.ReadBy.self.keptIn_modify h

theorem UnwindClause.keptIn_over {p : Plan} {c : UnwindClause} (h : c.over q = .ok p) :
    q.KeptIn p := by
  have hyields : Yields (c.over q) q.ReadBy := by
    refine (Expression.yields_toExpr _ _).bind fun e _ _ => ?_
    refine e.yields_asList.bind fun e _ _ => ?_
    split
    · exact Plan.ReadBy.self.yields_unwind _ _
    · refine (Plan.ReadBy.self.yields_projectColumns _).bind fun _ _ hproject => ?_
      exact hproject.yields_unwind _ _
  exact .of_isNodeOf (hyields.result h).isNodeOf

/-- **A step keeps the plan so far.** -/
theorem Clause.step_keeps {c : Clause} {n : Nat} {r : Option Plan × Nat} (hq : q.Reachable)
    (h : c.step catalog source home (some q) n = .ok r) : ∃ p, r.1 = some p ∧ q.KeptIn p := by
  cases c with
  | matching clause =>
      obtain ⟨p, hp, hstep⟩ := Clause.step_matching.mp h
      obtain ⟨-, paths, input, made, -, hinput, hmade, hrestrict⟩ := MatchClause.step_eq_ok.mp hstep
      cases hinput
      have hread := (Plan.ReadBy.self.yields_restrictBy clause.condition).result hrestrict
      exact ⟨p, hp, (hq.keptIn_extendMatch hmade).isNodeOf hread.isNodeOf⟩
  | passing w =>
      obtain ⟨input, hinput, h⟩ := bind_eq_ok.mp h
      cases hinput
      obtain ⟨projected, hprojected, h⟩ := bind_eq_ok.mp h
      obtain ⟨p, hp, h⟩ := bind_eq_ok.mp h
      cases h
      have hread := (w.projection.yields_toPlan .self).result hprojected
      exact ⟨p, rfl, .of_isNodeOf ((hread.yields_restrictBy w.condition).result hp).isNodeOf⟩
  | returning clause =>
      obtain ⟨input, hinput, h⟩ := bind_eq_ok.mp h
      cases hinput
      obtain ⟨p, hp, h⟩ := bind_eq_ok.mp h
      cases h
      exact ⟨p, rfl, .of_isNodeOf ((clause.projection.yields_toPlan .self).result hp).isNodeOf⟩
  | creating create =>
      obtain ⟨⟨p, m⟩, hstep, h⟩ := bind_eq_ok.mp h
      cases h
      obtain ⟨⟨created, k⟩, -, hstep⟩ := bind_eq_ok.mp hstep
      obtain ⟨p', hp, hstep⟩ := bind_eq_ok.mp hstep
      cases hstep
      exact ⟨p, rfl, GraphSource.keptIn_insert hp⟩
  | setting _ | removing _ | deleting _ =>
      obtain ⟨queued, -, h⟩ := bind_eq_ok.mp h
      obtain ⟨p, hp, h⟩ := bind_eq_ok.mp h
      cases h
      exact ⟨p, rfl, GraphSource.keptIn_write hp⟩
  | unwinding u =>
      obtain ⟨p, hp, h⟩ := bind_eq_ok.mp h
      cases h
      exact ⟨p, rfl, UnwindClause.keptIn_over hp⟩
  | calling call => cases h
  | onGraph _ =>
      cases h
      exact ⟨q, rfl, .of_isNodeOf (.self q)⟩
  | merging _ | repeating _ _ _ _ | loading _ => cases h

/-- **A run keeps the plan so far**, by induction on the clauses. -/
theorem Clause.steps_keep {cs : List Clause} {index n : Nat} {r : Option Plan × Nat}
    (hq : q.Reachable) (h : Clause.steps catalog source home index (some q) n cs = .ok r) :
    ∃ p, r.1 = some p ∧ q.KeptIn p := by
  induction cs generalizing index n q with
  | nil =>
      cases h
      exact ⟨q, rfl, .of_isNodeOf (.self q)⟩
  | cons c cs ih =>
      obtain ⟨mid, m, hstep, h⟩ := steps_cons_eq_ok h
      obtain ⟨p, rfl, hp⟩ := step_keeps hq hstep
      have htop : TopReachable (some q) := fun _ hmem => Option.some.inj hmem ▸ hq
      have hmakes := (c.yields_step catalog source home htop n).result hstep
      obtain ⟨last, hlast, hkept⟩ := ih (hmakes.reachable htop p rfl) h
      exact ⟨last, hlast, hp.trans hkept⟩

end Steps

/-- **A clause of a query that gives a plan**: the drafts before and after it, its step from one to
the other, and that what it leaves on top is kept. -/
theorem SingleQuery.clause_at {q : SingleQuery} {catalog : Catalog} {home : NamespaceId}
    {allow : Bool} {root : Plan} {kind : QueryKind} {i : Nat} {c : Clause}
    (h : q.toPlan catalog home allow = .ok (root, kind)) (hget : q.clauses[i]? = some c) :
    ∃ source before k after m kindBefore kindAfter,
      q.draftAfter catalog home allow i = .ok (.between catalog source before kindBefore k) ∧
      q.draftAfter catalog home allow (i + 1) =
        .ok (.between catalog source after kindAfter m) ∧
      TopReachable before ∧ c.step catalog source home before k = .ok (after, m) ∧
      ∀ p, after = some p → p.KeptIn root := by
  obtain ⟨source, n, hsource, hsteps, -⟩ := SingleQuery.toPlan_eq_ok h
  obtain ⟨before, k, after, m, hbefore, hstep, hafter⟩ := Clause.steps_at hget hsteps
  have hreach := (Clause.steps_leaves topReachable_none hbefore).1
  have hmakes := (c.yields_step catalog source home hreach k).result hstep
  refine ⟨source, before, k, after, m, _, _, SingleQuery.draftAfter_eq hsource hbefore,
    SingleQuery.draftAfter_eq hsource (Clause.steps_take_succ hget hbefore hstep),
    hreach, hstep, ?_⟩
  rintro p rfl
  obtain ⟨last, hlast, hkept⟩ := Clause.steps_keep (hmakes.reachable hreach p rfl) hafter
  cases hlast
  exact hkept

end QueryPlan
