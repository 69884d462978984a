import QueryPlan.Proofs.Compiler.Outcome

/-!
# The writes of a query

Each clause that writes puts one write on top of the plan so far, and no clause takes one away: a
match that takes up the match before it removes a node that writes nothing. So the writes of a
compiled plan are those of the clauses, in their order.
-/

namespace QueryPlan

/-- The kind of query that a write makes. -/
def Write.queryKind : Write → QueryKind
  | .insert => .insert
  | .update => .update
  | .delete => .delete

/-- The writes of the plan so far; without a plan there are none. -/
def TopWrites (ws : List (Write × Entity)) : Option Plan → Prop
  | none => ws = []
  | some p => p.HasWrites ws

/-! ## Steps -/

variable {catalog : Catalog} {source : GraphSource} {home : NamespaceId} {top : Option Plan}
  {ws : List (Write × Entity)}

theorem GraphSource.hasWrites_scan {p : Plan} (h : source.scan catalog = .ok p) :
    p.HasWrites [] := by
  cases source with
  | entity graph =>
      obtain rfl := (Plan.yields_scan graph).result h
      exact Plan.hasWrites_nil rfl (List.forall_mem_nil _)
  | substitution home labels =>
      obtain ⟨info, -, -, rfl⟩ := (Plan.yields_substitutionScan catalog home labels).result h
      refine Plan.hasWrites_nil rfl ?_
      intro i hi
      obtain ⟨entity, -, rfl⟩ := List.mem_map.mp hi
      exact Plan.hasWrites_nil rfl (List.forall_mem_nil _)

/-- Where a step starts, the writes are those of the plan so far. -/
theorem StartsFrom.hasWrites {p : Plan} (h : StartsFrom catalog source top p)
    (htop : TopWrites ws top) : p.HasWrites ws := by
  induction h with
  | top p => exact htop
  | scan hp =>
      rw [htop]
      exact GraphSource.hasWrites_scan hp
  | values hp =>
      obtain rfl := (Plan.yields_values _).result hp
      rw [htop]
      exact Plan.hasWrites_nil rfl (List.forall_mem_nil _)
  | call hp =>
      obtain ⟨schema, rfl⟩ := (Plan.yields_call _).result hp
      rw [htop]
      exact Plan.hasWrites_nil rfl (List.forall_mem_nil _)
  | @belowMatch _ p base bindings _ hop hinputs ih =>
      obtain ⟨tag, op, inputs, schema, model⟩ := p
      cases hop
      cases hinputs
      exact (Plan.hasWrites_over_iff rfl).mp (ih htop)

theorem ReadsFrom.hasWrites {p : Plan} (h : ReadsFrom catalog source top p)
    (htop : TopWrites ws top) : p.HasWrites ws := by
  obtain ⟨base, hbase, hread⟩ := h
  exact hread.hasWrites (hbase.hasWrites htop)

/-- **A step writes what its clause asks for**, after what was written before. -/
theorem Clause.Makes.topWrites {c : Clause} {r : Option Plan} (h : c.Makes catalog source top r)
    (htop : TopWrites ws top) :
    ∃ new : List (Write × Entity), TopWrites (ws ++ new) r ∧
      new.map Prod.fst = c.write?.toList ∧ ∀ w ∈ new, source.target = .ok w.2 := by
  cases h with
  | read hw _ hread =>
      refine ⟨[], ?_, by simp [hw], List.forall_mem_nil _⟩
      rw [List.append_nil]
      exact hread.hasWrites htop
  | @write input p w entity targets hw htarget hread hnode =>
      obtain ⟨s, m, rfl, -⟩ := (Plan.yields_rebuild _ _ _).result hnode
      refine ⟨[(w, entity)], ?_, by simp [hw], List.forall_mem_singleton.mpr htarget⟩
      exact (hread.hasWrites htop).node
  | skip huse =>
      have hw : c.write? = none := by
        cases c with
        | onGraph _ => rfl
        | _ => cases huse
      refine ⟨[], ?_, by simp [hw], List.forall_mem_nil _⟩
      rw [List.append_nil]
      exact htop

/-- **A run writes what its clauses ask for**, in their order. -/
theorem Clause.steps_topWrites {index n : Nat} {cs : List Clause} {r : Option Plan × Nat}
    (hreach : TopReachable top) (htop : TopWrites ws top)
    (h : Clause.steps catalog source home index top n cs = .ok r) :
    ∃ new : List (Write × Entity), TopWrites (ws ++ new) r.1 ∧
      new.map Prod.fst = cs.filterMap Clause.write? ∧ ∀ w ∈ new, source.target = .ok w.2 := by
  induction cs generalizing index top n ws with
  | nil =>
      cases h
      refine ⟨[], ?_, rfl, List.forall_mem_nil _⟩
      rw [List.append_nil]
      exact htop
  | cons c cs ih =>
      obtain ⟨mid, m, hstep, h⟩ := Clause.steps_cons_eq_ok h
      have hmakes := (c.yields_step catalog source home hreach n).result hstep
      obtain ⟨first, hfirst, hfirstWrites, hfirstTarget⟩ := hmakes.topWrites htop
      obtain ⟨rest, hrest, hrestWrites, hrestTarget⟩ := ih (hmakes.reachable hreach) hfirst h
      refine ⟨first ++ rest, ?_, ?_, ?_⟩
      · rw [← List.append_assoc]
        exact hrest
      · rw [List.map_append, hfirstWrites, hrestWrites]
        cases hw : c.write? <;> simp [hw]
      · intro w hmem
        rcases List.mem_append.mp hmem with hw | hw
        · exact hfirstTarget w hw
        · exact hrestTarget w hw

/-- Writes go to the graph of the namespace. -/
theorem GraphSource.graph_of_target {allow : Bool} {labels : List String} {entity : Entity}
    (hsource : GraphSource.resolve catalog home allow labels = .ok source)
    (h : source.target = .ok entity) : catalog.graph? home = some entity := by
  unfold GraphSource.resolve at hsource
  split at hsource
  · next graph hgraph =>
      cases hsource
      cases h
      exact hgraph
  · split at hsource
    · cases hsource
      cases h
    · cases hsource

/-! ## The kind of a query -/

/-- The kind after clauses is that of the last write among them, or what it was before. -/
theorem Clause.kindAfter_foldl (cs : List Clause) (kind : Option QueryKind) :
    (cs.foldl Clause.kindAfter kind).getD .select =
      ((cs.filterMap Clause.write?).getLast?.map Write.queryKind).getD (kind.getD .select) := by
  induction cs generalizing kind with
  | nil => rfl
  | cons c cs ih =>
      have hc : (c.kindAfter kind).getD .select =
          (c.write?.map Write.queryKind).getD (kind.getD .select) := by
        cases c with
        | matching _ | calling _ => cases kind <;> rfl
        | _ => rfl
      rw [List.foldl_cons, ih, hc, List.filterMap_cons]
      cases hw : c.write? with
      | none => rfl
      | some w =>
          rw [List.getLast?_cons]
          cases (cs.filterMap Clause.write?).getLast? <;> rfl

/-! ## Compiled plans -/

theorem Write.queryKind_ne_select (w : Write) : w.queryKind ≠ .select := by
  cases w <;> exact nofun

theorem Plan.HasWrites.toModel {p q : Plan} {target : Model} {operation : QueryKind}
    (h : p.HasWrites ws) (hq : p.toModel target operation = .ok q) : q.HasWrites ws := by
  unfold Plan.toModel at hq
  split at hq
  · cases hq
    exact h
  · obtain rfl := (Plan.yields_transform _ _ _).result hq
    exact (Plan.hasWrites_over_iff rfl).mpr h

theorem SingleQuery.hasWrites_toPlan {q : SingleQuery} {allow : Bool} {root : Plan}
    {kind : QueryKind} (h : q.toPlan catalog home allow = .ok (root, kind)) :
    ∃ ws, root.HasWrites ws ∧ ws.map Prod.fst = q.clauses.filterMap Clause.write? ∧
      (∀ w ∈ ws, catalog.graph? home = some w.2) ∧
      kind = ((ws.getLast?).map fun w => w.1.queryKind).getD .select := by
  obtain ⟨source, n, hsource, hsteps, hkind⟩ := SingleQuery.toPlan_eq_ok h
  obtain ⟨ws, hws, hwrites, htarget⟩ := Clause.steps_topWrites topReachable_none rfl hsteps
  refine ⟨ws, hws, hwrites, ?_, ?_⟩
  · exact fun w hw => GraphSource.graph_of_target hsource (htarget w hw)
  · rw [hkind, Clause.kindAfter_foldl, ← hwrites, List.getLast?_map, Option.map_map]
    rfl

namespace Compiler

/-- The kind that the last write gives is a reading one only if there is no write. -/
theorem lastKind_eq_select_iff :
    (ws.getLast?.map fun w => w.1.queryKind).getD .select = .select ↔ ws = [] := by
  cases hlast : ws.getLast? with
  | none => simp [List.getLast?_eq_none_iff.mp hlast]
  | some w =>
      have hne : ws ≠ [] := by
        rintro rfl
        cases hlast
      exact iff_of_false w.1.queryKind_ne_select hne

/-- **No write is lost, added or reordered.** Along the chain of a compiled plan stand the writes of
the query's clauses, in their order, and there are no others in the plan. All of them go to the
graph of the namespace, so without one there are none. The last one gives the query its kind.

The compiler is one that has served nothing yet. One in use may answer with a plan that it keeps
under the same fingerprint. -/
theorem writes_follow_clauses (catalog : Catalog) (settings : Settings) (query : Query)
    (compiled : Compiled)
    (h : ((Compiler.new catalog settings).compile query).1 = .ok compiled) :
    ∃ q, query = .single q ∧
      compiled.root.writes.map Prod.fst = q.clauses.filterMap Clause.write? ∧
      compiled.root.allWrites = compiled.root.writes ∧
      (∀ w ∈ compiled.root.writes, catalog.graph? settings.home = some w.2) ∧
      (catalog.graph? settings.home = none → compiled.root.allWrites = []) ∧
      compiled.kind =
        (compiled.root.writes.getLast?.map fun w => w.1.queryKind).getD .select ∧
      (compiled.kind = .select ↔ compiled.root.allWrites = []) := by
  obtain ⟨root, p, hplan, hp, hcompiled⟩ := compile_new_eq_ok h
  cases query with
  | union _ _ => cases hplan
  | periodicCommit _ _ => cases hplan
  | single q =>
      obtain ⟨ws, hroot, hwrites, hgraph, hkind⟩ := SingleQuery.hasWrites_toPlan hplan
      have hws : compiled.root.HasWrites ws := by
        rw [hcompiled]
        exact (hroot.toModel (toModel_of_deliver hp)).tagWith 0
      refine ⟨q, rfl, ?_⟩
      rw [hws.anywhere, hws.onChain]
      refine ⟨hwrites, rfl, hgraph, ?_, hkind, ?_⟩
      · intro hnone
        refine List.eq_nil_iff_forall_not_mem.mpr fun w hw => ?_
        have hsome := hgraph w hw
        rw [hnone] at hsome
        cases hsome
      · rw [hkind]
        exact lastKind_eq_select_iff

/-- `MATCH (n:Person) DELETE n CREATE (m:Gone)` -/
def deleteThenCreate : SingleQuery where
  clauses := [.matching ⟨false, [.node ⟨some "n", ["Person"], [], none⟩], none, none⟩,
    .deleting ⟨["n"], false, none⟩,
    .creating ⟨[.node ⟨some "m", ["Gone"], [], none⟩], none⟩]
  span := none

theorem deleteThenCreate_writes :
    ∃ compiled,
      ((Compiler.new .withDefaultGraph .default).compile (.single deleteThenCreate)).1 =
        .ok compiled ∧
      compiled.root.writes.map Prod.fst = [.delete, .insert] ∧
      compiled.root.allWrites = compiled.root.writes ∧ compiled.kind ≠ .select := by
  have hok : (deleteThenCreate.toPlan .withDefaultGraph ⟨0⟩ true).isOk = true := by
    decide +kernel
  cases hplan : deleteThenCreate.toPlan .withDefaultGraph ⟨0⟩ true with
  | error e =>
      rw [hplan] at hok
      cases hok
  | ok r =>
      obtain ⟨compiled, h⟩ : ∃ compiled, ((Compiler.new .withDefaultGraph .default).compile
          (.single deleteThenCreate)).1 = .ok compiled := exists_compile hplan
      obtain ⟨q, hq, hwrites, hall, -, -, -, hkind⟩ := writes_follow_clauses _ _ _ _ h
      cases hq
      refine ⟨compiled, h, hwrites, hall, ?_⟩
      rw [ne_eq, hkind, hall]
      intro hnil
      rw [hnil] at hwrites
      cases hwrites

end Compiler

end QueryPlan
