import QueryPlan.Plan.Rebuild
import QueryPlan.Bridge
import QueryPlan.Proofs.Outcome

/-!
# What the plan constructors make

For each constructor of plans, the node it makes and the errors it may give. Later proofs cite these
lemmas and do not look into the constructors again.
-/

namespace QueryPlan

theorem yields_checkRef (schema : Schema) (index : Nat) (ty : Ty) :
    FailsOrdinarily (checkRef schema index ty) := by
  unfold checkRef
  split
  · exact (yields_require (by trivial)).mono fun _ _ => trivial
  · exact Yields.fail trivial

theorem yields_checkAll (schema : Schema) (refs : List (Nat × Ty)) :
    FailsOrdinarily (checkAll schema refs) := by
  induction refs with
  | nil => exact Yields.ok trivial
  | cons r rest ih => exact (yields_checkRef schema r.1 r.2).bind fun _ _ _ => ih

/-- A reference is accepted exactly if the schema has its field, with its type. -/
theorem checkRef_eq_ok {schema : Schema} {index : Nat} {ty : Ty} {u : Unit} :
    checkRef schema index ty = .ok u ↔ ∃ field, schema[index]? = some field ∧ field.ty = ty := by
  unfold checkRef
  split
  · next field hfield => simp [hfield]
  · next hnone => simp [hnone]

theorem checkAll_eq_ok {schema : Schema} {refs : List (Nat × Ty)} {u : Unit} :
    checkAll schema refs = .ok u ↔
      ∀ r ∈ refs, ∃ field, schema[r.1]? = some field ∧ field.ty = r.2 := by
  induction refs with
  | nil => exact iff_of_true rfl (List.forall_mem_nil _)
  | cons r rest ih =>
      rw [checkAll, bind_eq_ok, List.forall_mem_cons, ← ih]
      constructor
      · rintro ⟨_, hfirst, hrest⟩
        exact ⟨checkRef_eq_ok.mp hfirst, hrest⟩
      · rintro ⟨hfirst, hrest⟩
        exact ⟨(), checkRef_eq_ok.mpr hfirst, hrest⟩

theorem checkAll_append (schema : Schema) (rs ss : List (Nat × Ty)) :
    checkAll schema (rs ++ ss) = (do checkAll schema rs; checkAll schema ss) := by
  induction rs with
  | nil => rfl
  | cons r rs ih =>
      rw [List.cons_append, checkAll, checkAll, ih]
      cases checkRef schema r.1 r.2 with
      | error e => rfl
      | ok u => rfl

theorem yields_checkRefs (schema : Schema) (exprs : List Expr) :
    FailsOrdinarily (checkRefs schema exprs) := yields_checkAll schema _

theorem yields_expect (accepted : Ty → Bool) (expected : String) (e : Expr) :
    FailsOrdinarily (e.expect accepted expected) :=
  (yields_require (by trivial)).mono fun _ _ => trivial

/-- Bindings taken apart and put together again. -/
theorem Binding.zip_name_expr (bindings : List Binding) :
    ((bindings.map Binding.name).zip (bindings.map Binding.expr)).map
      (fun (name, expr) => (⟨name, expr⟩ : Binding)) = bindings := by
  induction bindings with
  | nil => rfl
  | cons b bs ih => exact congrArg (b :: ·) ih

namespace Plan

theorem yields_build (op : Op) (inputs : List Plan) (schema : Schema) (model : Model) :
    Yields (build op inputs schema model) (· = ⟨none, op, inputs, schema, model⟩) := by
  unfold build
  split
  · exact Yields.fail trivial
  · exact Yields.ok rfl

/-- A node over one input has its model. -/
theorem build_over (op : Op) (input : Plan) (schema : Schema) :
    build op [input] schema input.model = .ok ⟨none, op, [input], schema, input.model⟩ := by
  simp [build, strangeInput?]

theorem yields_scan (entity : Entity) :
    Yields (scan entity) (· = ⟨none, .scan entity, [], entity.schema, entity.model⟩) :=
  yields_build _ _ _ _

theorem yields_filter (input : Plan) (predicate : Expr) :
    Yields (filter input predicate)
      (· = ⟨none, .filter predicate, [input], input.schema, input.model⟩) :=
  (yields_expect _ _ _).bind fun _ _ _ =>
    (yields_checkRefs _ _).bind fun _ _ _ => yields_build _ _ _ _

theorem filter_eq_ok {input p : Plan} {predicate : Expr} :
    filter input predicate = .ok p ↔
      predicate.ty.isBooleanLike = true ∧ checkRefs input.schema [predicate] = .ok () ∧
        p = ⟨none, .filter predicate, [input], input.schema, input.model⟩ := by
  simp only [filter, build_over, bind_eq_ok, Expr.expect, require_eq_ok, Except.ok.injEq]
  constructor
  · rintro ⟨_, hboolean, _, hrefs, hp⟩
    exact ⟨hboolean, hrefs, hp.symm⟩
  · rintro ⟨hboolean, hrefs, hp⟩
    exact ⟨(), hboolean, (), hrefs, hp.symm⟩

theorem yields_projectColumns (input : Plan) (columns : List Column) :
    Yields (projectColumns input columns)
      (· = ⟨none, .project columns, [input], Column.fields columns, input.model⟩) :=
  (yields_checkRefs _ _).bind fun _ _ _ => yields_build _ _ _ _

theorem projectColumns_eq_ok {input p : Plan} {columns : List Column} :
    projectColumns input columns = .ok p ↔
      checkRefs input.schema (columns.map Column.expr) = .ok () ∧
        p = ⟨none, .project columns, [input], Column.fields columns, input.model⟩ := by
  simp only [projectColumns, build_over, bind_eq_ok, Except.ok.injEq]
  constructor
  · rintro ⟨_, hrefs, hp⟩
    exact ⟨hrefs, hp.symm⟩
  · rintro ⟨hrefs, hp⟩
    exact ⟨(), hrefs, hp.symm⟩

theorem yields_matchBindings (input : Plan) (bindings : List Binding) :
    Yields (matchBindings input bindings)
      (· = ⟨none, .bind bindings, [input], Binding.fields bindings, .graph⟩) := by
  unfold matchBindings
  split
  · exact Yields.fail trivial
  · exact (yields_checkRefs _ _).bind fun _ _ _ => yields_build _ _ _ _

/-- A match is made exactly if it is put on a graph, its expressions are pattern calls, and these
refer to fields of the graph. -/
theorem matchBindings_eq_ok {input p : Plan} {bindings : List Binding} :
    matchBindings input bindings = .ok p ↔
      input.model = .graph ∧ (∀ b ∈ bindings, b.expr.operator? = some .patternMatch) ∧
      checkRefs input.schema (bindings.map Binding.expr) = .ok () ∧
      p = ⟨none, .bind bindings, [input], Binding.fields bindings, .graph⟩ := by
  constructor
  · intro h
    have hp := (yields_matchBindings input bindings).result h
    unfold matchBindings at h
    split at h
    · cases h
    · next hcalls =>
        obtain ⟨_, hrefs, hbuild⟩ := bind_eq_ok.mp h
        have hmodel : input.model = .graph := by
          by_cases hgraph : input.model = .graph
          · exact hgraph
          · simp [build, strangeInput?, Op.isTransform, hgraph] at hbuild
        refine ⟨hmodel, fun b hb => ?_, hrefs, hp⟩
        simpa using List.find?_eq_none.mp hcalls b hb
  · rintro ⟨hmodel, hcalls, hrefs, rfl⟩
    have hfind : bindings.find? (·.expr.operator? ≠ some .patternMatch) = none :=
      List.find?_eq_none.mpr fun b hb => by simp [hcalls b hb]
    rw [matchBindings, hfind]
    simp [hrefs, build, strangeInput?, Op.isTransform, hmodel]

/-- Bindings given as calls and names of one length. -/
theorem yields_patternMatch (input : Plan) (bindings : List Binding) :
    Yields (patternMatch input (bindings.map Binding.expr) (bindings.map Binding.name))
      (· = ⟨none, .bind bindings, [input], Binding.fields bindings, .graph⟩) := by
  refine (yields_require (by trivial)).bind fun _ _ _ => ?_
  refine (yields_pairUp (by trivial)).bind fun pairs hpairs _ => ?_
  obtain ⟨-, rfl⟩ := pairUp_eq_ok.mp hpairs
  rw [Binding.zip_name_expr]
  exact yields_matchBindings input bindings

theorem yields_aggregate (input : Plan) (keys : List Nat) (calls : List Aggregate) :
    Yields (aggregate input keys calls)
      (· = ⟨none, .aggregate keys calls, [input],
        ⟨"_id", .document⟩ :: calls.map fun c => ⟨c.name, .document⟩, input.model⟩) := by
  dsimp only [aggregate]
  split
  · exact Yields.fail trivial
  · exact yields_build _ _ _ _

theorem yields_modifyTargets (entity : Entity) (input : Plan) (write : Write)
    (targets : List Binding) :
    Yields (modifyTargets entity input write targets)
      (· = ⟨none, .modify entity write targets, [input], .single "ROWCOUNT" .int64,
        input.model⟩) :=
  (yields_checkRefs _ _).bind fun _ _ _ => yields_build _ _ _ _

theorem modifyTargets_eq_ok {input p : Plan} {entity : Entity} {write : Write}
    {targets : List Binding} :
    modifyTargets entity input write targets = .ok p ↔
      checkRefs input.schema (targets.map Binding.expr) = .ok () ∧
        p = ⟨none, .modify entity write targets, [input], .single "ROWCOUNT" .int64,
          input.model⟩ := by
  simp only [modifyTargets, build_over, bind_eq_ok, Except.ok.injEq]
  constructor
  · rintro ⟨_, hrefs, hp⟩
    exact ⟨hrefs, hp.symm⟩
  · rintro ⟨hrefs, hp⟩
    exact ⟨(), hrefs, hp.symm⟩

/-- Targets given as names and expressions of one length. -/
theorem yields_modify (entity : Entity) (input : Plan) (write : Write) (targets : List Binding) :
    Yields (modify entity input write (targets.map Binding.name) (targets.map Binding.expr))
      (· = ⟨none, .modify entity write targets, [input], .single "ROWCOUNT" .int64,
        input.model⟩) := by
  unfold modify
  split
  all_goals
    refine (yields_require (by trivial)).bind fun _ _ _ => ?_
    refine (yields_pairUp (by trivial)).bind fun pairs hpairs _ => ?_
    obtain ⟨-, rfl⟩ := pairUp_eq_ok.mp hpairs
    rw [Binding.zip_name_expr]
    exact yields_modifyTargets entity input write targets

/-- A write is made exactly if it has targets or is an insert, not both, and refers to fields of its
input. -/
theorem modify_eq_ok {input p : Plan} {entity : Entity} {write : Write} {targets : List Binding} :
    modify entity input write (targets.map Binding.name) (targets.map Binding.expr) = .ok p ↔
      (write = .insert ↔ targets = []) ∧ modifyTargets entity input write targets = .ok p := by
  have hlength : (targets.map Binding.name).length = (targets.map Binding.expr).length := by
    rw [List.length_map, List.length_map]
  unfold modify
  by_cases hwrite : write = .insert
  · simp [hwrite, bind_eq_ok, pairUp, hlength, Binding.zip_name_expr]
  · simp [hwrite, bind_eq_ok, pairUp, hlength, Binding.zip_name_expr]

/-- A list is unnested into one field. -/
theorem yields_unwind (input : Plan) (index : Nat) (asName : String) :
    Yields (unwind input index asName) fun p =>
      ∃ ty, p = ⟨none, .unwind index asName, [input], .single asName ty, input.model⟩ := by
  unfold unwind
  split
  · exact Yields.fail trivial
  · split
    · exact (yields_build _ _ _ _).mono fun p hp => ⟨_, hp⟩
    · exact (yields_build _ _ _ _).mono fun p hp => ⟨_, hp⟩
    · exact Yields.fail trivial

theorem yields_values (v : LiteralRows) :
    Yields (values v) (· = ⟨none, .values v, [], v.schema, .graph⟩) := by
  dsimp only [values]
  split
  · exact Yields.fail trivial
  · split
    · exact Yields.fail trivial
    · exact yields_build _ _ _ _

theorem yields_yieldFields (full : Schema) (items : List String) :
    FailsOrdinarily (yieldFields full items) := by
  induction items with
  | nil => exact Yields.ok trivial
  | cons item items ih =>
      unfold yieldFields
      split
      · exact ih.bind fun _ _ _ => Yields.ok trivial
      · exact Yields.fail trivial

/-- A call has the fields of its procedure, or those of them that are asked for. -/
theorem yields_call (c : ProcedureCall) :
    Yields (call c) fun p => ∃ schema, p = ⟨none, .call c, [], schema, .graph⟩ := by
  have hnode (schema : Schema) : Yields (build (.call c) [] schema .graph) fun p =>
      ∃ schema, p = ⟨none, .call c, [], schema, .graph⟩ :=
    (yields_build _ _ _ _).mono fun p hp => ⟨schema, hp⟩
  unfold call
  split
  · exact Yields.fail trivial
  · refine (yields_require (by trivial)).bind fun _ _ _ => ?_
    split
    · exact hnode _
    · exact (yields_yieldFields _ _).bind fun schema _ _ => hnode schema

theorem yields_transform (inputs : List Plan) (schema : Schema) (c : Conversion) :
    Yields (transform inputs schema c) (· = ⟨none, .transform c, inputs, schema, c.target⟩) := by
  refine (yields_require (by trivial)).bind fun _ _ _ => ?_
  refine (yields_require (by trivial)).bind fun _ _ _ => ?_
  dsimp only
  split
  · exact Yields.fail trivial
  · exact yields_build _ _ _ _

theorem yields_sort (input : Plan) (keys : List SortKey) (offset limit : Option Nat) :
    Yields (sort input keys offset limit)
      (· = ⟨none, .sort keys offset limit, [input], input.schema, input.model⟩) := by
  dsimp only [sort]
  split
  · exact Yields.fail trivial
  · exact yields_build _ _ _ _

/-! ## Scans that stand in for a graph -/

/-- A scan of an entity. -/
def scanNode (e : Entity) : Plan := ⟨none, .scan e, [], e.schema, e.model⟩

/-- The graph made up from entities of a namespace. -/
def madeUpGraph (info : Namespace) (es : List Entity) : Plan where
  tag := none
  op := .transform {
    order := List.replicate es.length .node
    operation := .select
    source := info.model
    target := .graph
    names := es.map Entity.name }
  inputs := es.map scanNode
  schema := .single "graph" .graph
  model := .graph

theorem yields_scanAll (entities : List Entity) :
    Yields (scanAll entities) (· = entities.map scanNode) := by
  induction entities with
  | nil => exact Yields.ok rfl
  | cons e es ih =>
      refine (yields_scan e).bind fun p _ hp => ?_
      refine ih.bind fun ps _ hps => ?_
      subst hp hps
      exact Yields.ok rfl

/-- A graph that is made up is a change of model over scans. -/
theorem yields_substitutionScan (catalog : Catalog) (ns : NamespaceId) (labels : List String) :
    Yields (substitutionScan catalog ns labels) fun p =>
      ∃ info, catalog.findNamespace? ns = some info ∧ catalog.standIns ns labels ≠ [] ∧
        p = madeUpGraph info (catalog.standIns ns labels) := by
  unfold substitutionScan
  split
  · exact Yields.fail trivial
  · next info hinfo =>
      dsimp only
      split
      · exact Yields.fail trivial
      · next hne =>
          refine (yields_scanAll _).bind fun scans _ hscans => ?_
          subst hscans
          refine (yields_transform _ _ _).mono fun p hp => ?_
          rw [List.map_const'] at hp
          exact ⟨info, hinfo, by simpa using hne, hp⟩

end Plan

end QueryPlan
