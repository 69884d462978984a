import QueryPlan.Lowering.Query
import QueryPlan.Proofs.Draft.Endpoints
import QueryPlan.Proofs.Expr.Failure
import QueryPlan.Proofs.Plan.Writes

/-!
# What lowering yields

The parts of a clause fail with ordinary errors only. A projection puts operators that write nothing
on top of the plan it projects. Everything that a clause queues for a write has a name, so that the
fault of a write without one cannot arise.
-/

namespace QueryPlan

/-! ## Projections -/

theorem yields_rowCount (keyword : String) (e : Expression) :
    FailsOrdinarily (rowCount keyword e) := by
  unfold rowCount
  split
  · split
    · exact Yields.ok trivial
    · exact Yields.fail trivial
  · exact Yields.fail trivial

theorem yields_rowCount? (keyword : String) (e : Option Expression) :
    FailsOrdinarily (rowCount? keyword e) := by
  cases e with
  | none => exact Yields.ok trivial
  | some e => exact (yields_rowCount keyword e).bind fun _ _ _ => Yields.ok trivial

theorem yields_sortKeys (schema : Schema) (items : List OrderItem) :
    FailsOrdinarily (sortKeys schema items) := by
  induction items with
  | nil => exact Yields.ok trivial
  | cons item items ih =>
      unfold sortKeys
      split
      · exact ih.bind fun _ _ _ => Yields.ok trivial
      · exact Yields.fail trivial

theorem yields_itemColumns (scope : Schema) (items : List ReturnItem) :
    FailsOrdinarily (itemColumns scope items) := by
  induction items with
  | nil => exact Yields.ok trivial
  | cons item items ih =>
      refine (Expression.yields_toExpr scope item.expression).bind fun _ _ _ => ?_
      exact ih.bind fun _ _ _ => Yields.ok trivial

theorem yields_hiddenColumns (scope : Schema) (taken : List String) (items : List OrderItem) :
    FailsOrdinarily (hiddenColumns scope taken items) := by
  induction items generalizing taken with
  | nil => exact Yields.ok trivial
  | cons item items ih =>
      dsimp only [hiddenColumns]
      split
      · exact ih taken
      · refine (Expression.yields_toExpr scope item.expression).bind fun _ _ _ => ?_
        exact (ih _).bind fun _ _ _ => Yields.ok trivial

theorem yields_aggregateItem (name : String) (e : Expression) :
    FailsOrdinarily (aggregateItem name e) := by
  unfold aggregateItem
  split
  · exact Yields.ok trivial
  · split
    · exact Yields.fail trivial
    · split
      · split
        · exact Yields.fail trivial
        · exact Yields.ok trivial
      · exact Yields.fail trivial
  · exact Yields.fail trivial

theorem yields_splitItems (scope : Schema) (items : List ReturnItem) :
    FailsOrdinarily (splitItems scope items) := by
  induction items with
  | nil => exact Yields.ok trivial
  | cons item items ih =>
      unfold splitItems
      split
      · refine (yields_aggregateItem _ _).bind fun _ _ _ => ?_
        exact ih.bind fun _ _ _ => Yields.ok trivial
      · refine (Expression.yields_toExpr scope item.expression).bind fun _ _ _ => ?_
        exact ih.bind fun _ _ _ => Yields.ok trivial

theorem yields_aggregateCalls (scope : Schema) (width count : Nat) (items : List AggregateItem) :
    FailsOrdinarily (aggregateCalls scope width count items) := by
  induction items generalizing width count with
  | nil => exact Yields.ok trivial
  | cons a items ih =>
      unfold aggregateCalls
      split
      · refine (Expression.yields_toExpr scope _).bind fun _ _ _ => ?_
        exact (ih _ _).bind fun _ _ _ => Yields.ok trivial
      · exact (ih _ _).bind fun _ _ _ => Yields.ok trivial

namespace Projection

variable {base input : Plan} (p : Projection)

theorem yields_sort (h : base.ReadBy input) : Yields (p.sort input) base.ReadBy := by
  refine (yields_sortKeys _ _).bind fun _ _ _ => ?_
  refine (yields_rowCount? _ _).bind fun _ _ _ => ?_
  refine (yields_rowCount? _ _).bind fun _ _ _ => ?_
  exact h.yields_sort _ _ _

theorem yields_group (h : base.ReadBy input) : Yields (p.group input) base.ReadBy := by
  refine (yields_splitItems _ _).bind fun _ _ _ => ?_
  refine (yields_aggregateCalls _ _ _ _).bind fun _ _ _ => ?_
  refine (h.yields_projectColumns _).bind fun _ _ hproject => ?_
  exact hproject.yields_aggregate _ _

theorem yields_sortGroups (h : base.ReadBy input) : Yields (p.sortGroups input) base.ReadBy := by
  unfold sortGroups
  split
  · split
    · exact Yields.fail trivial
    · exact p.yields_sort h
  · exact Yields.ok h

theorem yields_columns (scope : Schema) : FailsOrdinarily (p.columns scope) :=
  (yields_itemColumns _ _).bind fun _ _ _ => Yields.ok trivial

theorem yields_toPlan (h : base.ReadBy input) : Yields (p.toPlan input) base.ReadBy := by
  refine (yields_require (by trivial)).bind fun _ _ _ => ?_
  refine (yields_require (by trivial)).bind fun _ _ _ => ?_
  split
  · exact (p.yields_group h).bind fun _ _ hgroups => p.yields_sortGroups hgroups
  · refine (p.yields_columns _).bind fun _ _ _ => ?_
    split
    · refine (yields_hiddenColumns _ _ _).bind fun _ _ _ => ?_
      refine (h.yields_projectColumns _).bind fun _ _ hproject => ?_
      refine (p.yields_sort hproject).bind fun _ _ hsorted => ?_
      split
      · exact Yields.ok hsorted
      · exact hsorted.yields_projectColumns _
    · exact h.yields_projectColumns _

end Projection

/-! ## Patterns -/

theorem yields_literalEntries (entries : List (String × Expression)) :
    FailsOrdinarily (literalEntries entries) := by
  induction entries with
  | nil => exact Yields.ok trivial
  | cons entry rest ih =>
      obtain ⟨key, e⟩ := entry
      unfold literalEntries
      split
      · exact ih.bind fun _ _ _ => Yields.ok trivial
      · exact Yields.fail trivial

theorem yields_literalProperties (entries : List (String × Expression)) :
    FailsOrdinarily (literalProperties entries) :=
  (yields_literalEntries entries).bind fun _ _ _ => Yields.ok trivial

theorem NodePattern.yields_toNode (n : Nat) (p : NodePattern) : FailsOrdinarily (p.toNode n) := by
  refine (yields_literalProperties _).bind fun _ _ _ => ?_
  split
  · exact Yields.ok trivial
  · exact Yields.ok trivial

theorem EdgePattern.yields_toEdge (p : EdgePattern) (left right : String) :
    FailsOrdinarily (p.toEdge left right) := by
  refine (yields_literalProperties _).bind fun _ _ _ => ?_
  dsimp only
  split
  · exact Yields.ok trivial
  · exact Yields.ok trivial

theorem EdgePattern.yields_toSteps (n : Nat) (left : String) (ps : List EdgePattern) :
    FailsOrdinarily (EdgePattern.toSteps n left ps) := by
  induction ps generalizing n left with
  | nil => exact Yields.ok trivial
  | cons p ps ih =>
      refine (p.target.yields_toNode n).bind fun _ _ _ => ?_
      refine (p.yields_toEdge _ _).bind fun _ _ _ => ?_
      exact (ih _ _).bind fun _ _ _ => Yields.ok trivial

theorem Pattern.yields_toPath (n : Nat) (p : Pattern) : FailsOrdinarily (p.toPath n) := by
  refine (p.source.yields_toNode n).bind fun _ _ _ => ?_
  exact (EdgePattern.yields_toSteps _ _ _).bind fun _ _ _ => Yields.ok trivial

theorem yields_elementCalls (path : Path) (taken names : List String) :
    FailsOrdinarily (elementCalls path taken names) := by
  induction names with
  | nil => exact Yields.ok trivial
  | cons name names ih =>
      unfold elementCalls
      split
      · exact ih
      · refine (Expr.yields_call _ _).bind fun _ _ _ => ?_
        exact ih.bind fun _ _ _ => Yields.ok trivial

theorem yields_patternCalls (n : Nat) (taken : List String) (ps : List Pattern) :
    FailsOrdinarily (patternCalls n taken ps) := by
  induction ps generalizing n taken with
  | nil => exact Yields.ok trivial
  | cons p ps ih =>
      refine (p.yields_toPath n).bind fun _ _ _ => ?_
      refine (yields_elementCalls _ _ _).bind fun _ _ _ => ?_
      exact (ih _ _).bind fun _ _ _ => Yields.ok trivial

theorem yields_createNode (scope : Schema) (n : Nat) (p : NodePattern) :
    FailsOrdinarily (createNode scope n p) := by
  unfold createNode
  split
  · split
    · exact Yields.fail trivial
    · exact p.yields_toNode n
  · exact p.yields_toNode n

theorem yields_createEdge (p : EdgePattern) (left right : String) :
    FailsOrdinarily (createEdge p left right) := by
  unfold createEdge
  have hrest (source target : String) : FailsOrdinarily (do
      require (p.types.length = 1)
        (.unsupportedOperation
          s!"relationships need exactly one type in CREATE, found {p.types.length}")
      require p.range.isNone
        (.unsupportedOperation "variable-length relationships cannot be created")
      let properties ← literalProperties p.properties
      return (⟨p.var, .single p.types properties source target .outgoing p.var, source, target⟩ :
        BoundEdge)) := by
    refine (yields_require (by trivial)).bind fun _ _ _ => ?_
    refine (yields_require (by trivial)).bind fun _ _ _ => ?_
    exact (yields_literalProperties _).bind fun _ _ _ => Yields.ok trivial
  cases p.direction with
  | outgoing => exact hrest left right
  | incoming => exact hrest right left
  | undirected => exact Yields.fail trivial

theorem yields_createPattern (scope : Schema) (n : Nat) (p : Pattern) :
    FailsOrdinarily (createPattern scope n p) := by
  refine (yields_require (by trivial)).bind fun _ _ _ => ?_
  refine (yields_require (by trivial)).bind fun _ _ _ => ?_
  refine (yields_createNode _ _ _).bind fun left _ _ => ?_
  cases p.edges with
  | nil => exact Yields.ok trivial
  | cons edge rest =>
      refine (yields_createNode _ _ _).bind fun _ _ _ => ?_
      exact (yields_createEdge _ _ _).bind fun _ _ _ => Yields.ok trivial

theorem yields_createPatterns (scope : Schema) (n : Nat) (ps : List Pattern) :
    FailsOrdinarily (createPatterns scope n ps) := by
  induction ps generalizing n with
  | nil => exact Yields.ok trivial
  | cons p ps ih =>
      refine (yields_createPattern _ _ _).bind fun _ _ _ => ?_
      exact (ih _).bind fun _ _ _ => Yields.ok trivial

theorem yields_newEdges (schema : Schema) (n : Nat) (edges : List BoundEdge) :
    FailsOrdinarily (newEdges schema n edges) := by
  induction edges generalizing n with
  | nil => exact Yields.ok trivial
  | cons bound rest ih =>
      rw [newEdges, EndpointCase.ends_classify, ok_bind]
      refine (Expr.yields_call _ _).bind fun _ _ _ => ?_
      split
      · exact (ih _).bind fun _ _ _ => Yields.ok trivial
      · exact (ih _).bind fun _ _ _ => Yields.ok trivial

theorem yields_newElements (schema : Schema) (nodes : List (String × Node))
    (edges : List BoundEdge) : FailsOrdinarily (newElements schema nodes edges) :=
  (yields_newEdges _ _ _).bind fun _ _ _ => Yields.ok trivial

/-! ## Queues of writes -/

/-- Every entry of a queue has a name. -/
def AllNamed (queue : List (Option String × Expr)) : Prop := ∀ entry ∈ queue, entry.1.isSome

theorem allNamed_nil : AllNamed [] := List.forall_mem_nil _

theorem AllNamed.snoc {queue : List (Option String × Expr)} (h : AllNamed queue) (name : String)
    (e : Expr) : AllNamed (queue ++ [(some name, e)]) := by
  intro entry hentry
  rcases List.mem_append.mp hentry with hold | hnew
  · exact h entry hold
  · rw [List.mem_singleton.mp hnew]
    rfl

/-- What is left after an entry is taken out was there before. -/
theorem takeNamed_subset {name : String} {queue rest : List (Option String × Expr)} {e : Expr}
    (h : Drafting.takeNamed name queue = some (e, rest)) : ∀ entry ∈ rest, entry ∈ queue := by
  induction queue generalizing rest with
  | nil => simp [Drafting.takeNamed] at h
  | cons first queue ih =>
      obtain ⟨n, x⟩ := first
      unfold Drafting.takeNamed at h
      split at h
      · cases h
        exact fun entry hentry => List.mem_cons_of_mem _ hentry
      · obtain ⟨⟨found, others⟩, hfound, heq⟩ := Option.map_eq_some_iff.mp h
        cases heq
        intro entry hentry
        rcases List.mem_cons.mp hentry with rfl | hentry
        · exact List.mem_cons_self
        · exact List.mem_cons_of_mem _ (ih hfound entry hentry)

theorem yields_queueUpdate {scope : Schema} {queue : List (Option String × Expr)} {name : String}
    {update : Expr → Except Error Expr} (hqueue : AllNamed queue)
    (hupdate : ∀ e, FailsOrdinarily (update e)) :
    Yields (queueUpdate scope queue name update) AllNamed := by
  unfold queueUpdate
  split
  · next found others hfound =>
      have hothers : AllNamed others := fun entry hentry =>
        hqueue entry (takeNamed_subset hfound entry hentry)
      exact (hupdate _).bind fun e _ _ => Yields.ok (hothers.snoc name e)
  · refine (scope.yields_lookup name).bind fun _ _ _ => ?_
    exact (hupdate _).bind fun e _ _ => Yields.ok (hqueue.snoc name e)

theorem SetItem.yields_update (scope : Schema) (item : SetItem) (target : Expr) :
    FailsOrdinarily (item.update scope target) := by
  cases item with
  | property name key value =>
      exact (Expression.yields_toExpr scope value).bind fun _ _ _ => Expr.yields_call _ _
  | replace name value =>
      exact (Expression.yields_toExpr scope value).bind fun _ _ _ => Expr.yields_call _ _
  | merge name value =>
      exact (Expression.yields_toExpr scope value).bind fun _ _ _ => Expr.yields_call _ _
  | labels name added =>
      dsimp only [SetItem.update]
      split
      · exact Yields.fail trivial
      · exact Expr.yields_call _ _

theorem RemoveItem.yields_update (item : RemoveItem) (target : Expr) :
    FailsOrdinarily (item.update target) := by
  cases item with
  | property name key => exact Expr.yields_call _ _
  | labels name removed => exact Expr.yields_call _ _

theorem yields_queueSets {scope : Schema} {queue : List (Option String × Expr)}
    (items : List SetItem) (hqueue : AllNamed queue) :
    Yields (queueSets scope queue items) AllNamed := by
  induction items generalizing queue with
  | nil => exact Yields.ok hqueue
  | cons item items ih =>
      exact (yields_queueUpdate hqueue (item.yields_update scope)).bind fun _ _ hnext => ih hnext

theorem yields_queueRemoves {scope : Schema} {queue : List (Option String × Expr)}
    (items : List RemoveItem) (hqueue : AllNamed queue) :
    Yields (queueRemoves scope queue items) AllNamed := by
  induction items generalizing queue with
  | nil => exact Yields.ok hqueue
  | cons item items ih =>
      exact (yields_queueUpdate hqueue item.yields_update).bind fun _ _ hnext => ih hnext

theorem yields_queueDeletes {scope : Schema} {queue : List (Option String × Expr)}
    (names : List String) (hqueue : AllNamed queue) :
    Yields (queueDeletes scope queue names) AllNamed := by
  induction names generalizing queue with
  | nil => exact Yields.ok hqueue
  | cons name names ih =>
      refine (scope.yields_lookup name).bind fun target _ _ => ?_
      refine (yields_require (by trivial)).bind fun _ _ _ => ?_
      split
      · exact ih hqueue
      · exact ih (hqueue.snoc name target)

/-- Only an entry without a name is an internal fault. -/
theorem yields_targetsOf {queue : List (Option String × Expr)} (hqueue : AllNamed queue) :
    FailsOrdinarily (Drafting.targetsOf queue) := by
  induction queue with
  | nil => exact Yields.ok trivial
  | cons entry rest ih =>
      obtain ⟨hentry, hrest⟩ := List.forall_mem_cons.mp hqueue
      obtain ⟨_ | name, e⟩ := entry
      · simp at hentry
      · exact (ih hrest).bind fun _ _ _ => Yields.ok trivial

end QueryPlan
