import QueryPlan.Proofs.Plan.Node

/-!
# Reachable plans are valid

`Plan.Reachable` are the plans that the constructors, the rewrites and the bridges between data
models can make, in any order. `Plan.WellBuilt` says of a plan that each of its nodes, made again
from its payload, comes out as it is. A node made again keeps its payload and its inputs
(`yields_rebuild`), so making it once more changes nothing; this is why every reachable plan is well
built, whatever was done to get there.
-/

namespace QueryPlan.Plan

/-- Plans that can be made. -/
inductive Reachable : Plan → Prop
  | scan {entity : Entity} {p : Plan} : Plan.scan entity = .ok p → Reachable p
  | scanById {catalog : Catalog} {id : EntityId} {p : Plan} :
      Plan.scanById catalog id = .ok p → Reachable p
  | filter {input : Plan} {predicate : Expr} {p : Plan} :
      Reachable input → Plan.filter input predicate = .ok p → Reachable p
  | project {input : Plan} {exprs : List Expr} {names : List (Option String)} {p : Plan} :
      Reachable input → Plan.project input exprs names = .ok p → Reachable p
  | patternMatch {input : Plan} {calls : List Expr} {names : List String} {p : Plan} :
      Reachable input → Plan.patternMatch input calls names = .ok p → Reachable p
  | aggregate {input : Plan} {keys : List Nat} {calls : List Aggregate} {p : Plan} :
      Reachable input → Plan.aggregate input keys calls = .ok p → Reachable p
  | modify {entity : Entity} {input : Plan} {write : Write} {names : List String}
      {exprs : List Expr} {p : Plan} :
      Reachable input → Plan.modify entity input write names exprs = .ok p → Reachable p
  | unwind {input : Plan} {index : Nat} {asName : String} {p : Plan} :
      Reachable input → Plan.unwind input index asName = .ok p → Reachable p
  | values {v : LiteralRows} {p : Plan} : Plan.values v = .ok p → Reachable p
  | call {c : ProcedureCall} {p : Plan} : Plan.call c = .ok p → Reachable p
  | transform {inputs : List Plan} {schema : Schema} {c : Conversion} {p : Plan} :
      (∀ input ∈ inputs, Reachable input) → Plan.transform inputs schema c = .ok p → Reachable p
  | sort {input : Plan} {keys : List SortKey} {offset limit : Option Nat} {p : Plan} :
      Reachable input → Plan.sort input keys offset limit = .ok p → Reachable p
  | withInputs {p q : Plan} {inputs : List Plan} :
      Reachable p → (∀ input ∈ inputs, Reachable input) → p.withInputs inputs = .ok q → Reachable q
  | mapExprs {p q : Plan} {f : Expr → Except Error Expr.Change} :
      Reachable p → p.mapExprs f = .ok q → Reachable q
  /-- A rewriting function may answer differently each time it is asked, so the new expressions can
  be any. -/
  | rewritten {p q : Plan} {exprs : List Expr} :
      Reachable p → rebuild (p.op.withExprs exprs) p.inputs p.schema = .ok q → Reachable q
  | substitutionScan {catalog : Catalog} {ns : NamespaceId} {labels : List String} {p : Plan} :
      Plan.substitutionScan catalog ns labels = .ok p → Reachable p
  | toModel {p q : Plan} {target : Model} {operation : QueryKind} :
      Reachable p → p.toModel target operation = .ok q → Reachable q
  /-- Keeping a plan tags it. -/
  | tagged {p : Plan} (n : Nat) : Reachable p → Reachable (p.tagWith n)

/-- Each node, made again, comes out as it is. -/
inductive WellBuilt : Plan → Prop
  | node {tag : Option Nat} {op : Op} {inputs : List Plan} {schema : Schema} {model : Model} :
      (∀ input ∈ inputs, WellBuilt input) →
      rebuild op inputs schema = .ok ⟨none, op, inputs, schema, model⟩ →
      WellBuilt ⟨tag, op, inputs, schema, model⟩

/-- The nodes of a plan, inputs before the node that reads them. -/
inductive IsNodeOf : Plan → Plan → Prop
  | self (p : Plan) : IsNodeOf p p
  | input {n p q : Plan} : IsNodeOf n p → p ∈ q.inputs → IsNodeOf n q

theorem IsNodeOf.trans {n p q : Plan} (hn : n.IsNodeOf p) (hp : p.IsNodeOf q) : n.IsNodeOf q := by
  induction hp with
  | self => exact hn
  | input _ hmem ih => exact .input ih hmem

/-! ## Making a node again -/

/-- Every constructor but that for a change of model ignores the schema on offer. -/
theorem rebuild_schema {op : Op} {inputs : List Plan} (s t : Schema) (h : op.isTransform = false) :
    rebuild op inputs s = rebuild op inputs t := by
  cases op with
  | transform c => simp [Op.isTransform] at h
  | _ => rcases inputs with _ | ⟨input, _ | _⟩ <;> rfl

/-- A node made again has the payload and the inputs it is made of, and it has no tag. A change of
model also keeps its schema. -/
theorem yields_rebuild (op : Op) (inputs : List Plan) (schema : Schema) :
    Yields (rebuild op inputs schema) fun p =>
      ∃ s m, p = ⟨none, op, inputs, s, m⟩ ∧ (op.isTransform = true → s = schema) := by
  unfold rebuild
  split
  · exact (yields_transform _ _ _).mono fun p hp => ⟨_, _, hp, fun _ => rfl⟩
  · exact (yields_scan _).mono fun p hp => ⟨_, _, hp, nofun⟩
  · exact (yields_filter _ _).mono fun p hp => ⟨_, _, hp, nofun⟩
  · exact (yields_projectColumns _ _).mono fun p hp => ⟨_, _, hp, nofun⟩
  · exact (yields_patternMatch _ _).mono fun p hp => ⟨_, _, hp, nofun⟩
  · exact (yields_aggregate _ _ _).mono fun p hp => ⟨_, _, hp, nofun⟩
  · exact (yields_modify _ _ _ _).mono fun p hp => ⟨_, _, hp, nofun⟩
  · refine (yields_unwind _ _ _).mono fun p hp => ?_
    obtain ⟨ty, hp⟩ := hp
    exact ⟨_, _, hp, nofun⟩
  · exact (yields_values _).mono fun p hp => ⟨_, _, hp, nofun⟩
  · refine (yields_call _).mono fun p hp => ?_
    obtain ⟨s, hp⟩ := hp
    exact ⟨_, _, hp, nofun⟩
  · exact (yields_sort _ _ _ _).mono fun p hp => ⟨_, _, hp, nofun⟩
  · exact Yields.fail trivial

/-- What is no leaf and no change of model reads one plan. -/
theorem exists_input_of_rebuild {op : Op} {inputs : List Plan} {schema : Schema} {p : Plan}
    (h : rebuild op inputs schema = .ok p) (harity : op.arity = 1) (hop : op.isTransform = false) :
    ∃ input, inputs = [input] := by
  rcases inputs with _ | ⟨input, _ | ⟨_, _⟩⟩
  · cases op with
    | transform c => cases hop
    | scan | values | call => cases harity
    | _ => cases h
  · exact ⟨input, rfl⟩
  · cases op with
    | transform c => cases hop
    | _ => cases h

/-- What comes out of `rebuild` is well built, if its inputs are. -/
theorem wellBuilt_of_rebuild (op : Op) {inputs : List Plan} {schema : Schema} {p : Plan}
    (hinputs : ∀ input ∈ inputs, WellBuilt input) (h : rebuild op inputs schema = .ok p) :
    WellBuilt p := by
  obtain ⟨s, m, rfl, hs⟩ := (yields_rebuild op inputs schema).result h
  refine .node hinputs ?_
  cases hop : op.isTransform with
  | true =>
      rw [hs hop] at h ⊢
      exact h
  | false =>
      rw [rebuild_schema s schema hop]
      exact h

theorem WellBuilt.inputs {p : Plan} (h : WellBuilt p) : ∀ input ∈ p.inputs, WellBuilt input := by
  cases h with
  | node hinputs _ => exact hinputs

theorem WellBuilt.tagWith {p : Plan} (n : Nat) (h : WellBuilt p) : WellBuilt (p.tagWith n) := by
  cases h with
  | node hinputs hagain => exact .node hinputs hagain

theorem wellBuilt_leaf (op : Op) {p : Plan} (h : rebuild op [] [] = .ok p) : WellBuilt p :=
  wellBuilt_of_rebuild op (List.forall_mem_nil _) h

theorem wellBuilt_over (op : Op) {input p : Plan} (hinput : WellBuilt input)
    (h : rebuild op [input] [] = .ok p) : WellBuilt p :=
  wellBuilt_of_rebuild op (List.forall_mem_singleton.mpr hinput) h

/-! ## Constructors make nodes that `rebuild` makes too -/

/-- Names and expressions of one length are those of bindings. -/
theorem exists_bindings {names : List String} {exprs : List Expr}
    (h : names.length = exprs.length) :
    ∃ bindings : List Binding, names = bindings.map Binding.name ∧
      exprs = bindings.map Binding.expr := by
  refine ⟨(names.zip exprs).map fun pair => ⟨pair.1, pair.2⟩, ?_, ?_⟩
  · rw [List.map_map]
    exact (List.map_fst_zip (Nat.le_of_eq h)).symm
  · rw [List.map_map]
    exact (List.map_snd_zip (Nat.le_of_eq h.symm)).symm

theorem project_eq_rebuild {input p : Plan} {exprs : List Expr} {names : List (Option String)}
    (h : project input exprs names = .ok p) :
    ∃ columns, columns.map Column.expr = exprs ∧
      rebuild (.project columns) [input] [] = .ok p := by
  obtain ⟨pairs, hpairs, h⟩ := bind_eq_ok.mp h
  obtain ⟨hlength, rfl⟩ := pairUp_eq_ok.mp hpairs
  refine ⟨_, ?_, h⟩
  rw [List.map_map]
  exact List.map_snd_zip (Nat.le_of_eq hlength.symm)

theorem patternMatch_eq_rebuild {input p : Plan} {calls : List Expr} {names : List String}
    (h : patternMatch input calls names = .ok p) :
    ∃ bindings, bindings.map Binding.expr = calls ∧
      rebuild (.bind bindings) [input] [] = .ok p := by
  obtain ⟨-, -, hpair⟩ := bind_eq_ok.mp h
  obtain ⟨pairs, hpairs, -⟩ := bind_eq_ok.mp hpair
  obtain ⟨bindings, rfl, rfl⟩ := exists_bindings (pairUp_eq_ok.mp hpairs).1
  exact ⟨bindings, rfl, h⟩

theorem modify_eq_rebuild {entity : Entity} {input p : Plan} {write : Write} {names : List String}
    {exprs : List Expr} (h : modify entity input write names exprs = .ok p) :
    ∃ targets, targets.map Binding.expr = exprs ∧
      rebuild (.modify entity write targets) [input] [] = .ok p := by
  have hlength : names.length = exprs.length := by
    unfold modify at h
    split at h
    all_goals
      obtain ⟨_, _, hpair⟩ := bind_eq_ok.mp h
      obtain ⟨pairs, hpairs, -⟩ := bind_eq_ok.mp hpair
      exact (pairUp_eq_ok.mp hpairs).1
  obtain ⟨targets, rfl, rfl⟩ := exists_bindings hlength
  exact ⟨targets, rfl, h⟩

theorem scanById_eq_rebuild {catalog : Catalog} {id : EntityId} {p : Plan}
    (h : scanById catalog id = .ok p) : ∃ entity, rebuild (.scan entity) [] [] = .ok p := by
  unfold scanById at h
  split at h
  · exact ⟨_, h⟩
  · cases h

theorem wellBuilt_scanAll {entities : List Entity} {scans : List Plan}
    (h : scanAll entities = .ok scans) : ∀ p ∈ scans, WellBuilt p := by
  obtain rfl := (yields_scanAll entities).result h
  intro p hp
  obtain ⟨entity, -, rfl⟩ := List.mem_map.mp hp
  exact .node (List.forall_mem_nil _) rfl

theorem wellBuilt_substitutionScan {catalog : Catalog} {ns : NamespaceId} {labels : List String}
    {p : Plan} (h : substitutionScan catalog ns labels = .ok p) : WellBuilt p := by
  unfold substitutionScan at h
  split at h
  · cases h
  · dsimp only at h
    split at h
    · cases h
    · obtain ⟨scans, hscans, h⟩ := bind_eq_ok.mp h
      exact wellBuilt_of_rebuild (.transform _) (wellBuilt_scanAll hscans) h

theorem wellBuilt_toModel {p q : Plan} {target : Model} {operation : QueryKind}
    (hp : WellBuilt p) (h : p.toModel target operation = .ok q) : WellBuilt q := by
  unfold toModel at h
  split at h
  · cases h
    exact hp
  · exact wellBuilt_of_rebuild (.transform _) (List.forall_mem_singleton.mpr hp) h

theorem wellBuilt_withInputs {p q : Plan} {inputs : List Plan} (hp : WellBuilt p)
    (hinputs : ∀ input ∈ inputs, WellBuilt input) (h : p.withInputs inputs = .ok q) :
    WellBuilt q := by
  unfold withInputs at h
  split at h
  · cases h
    exact hp
  · exact wellBuilt_of_rebuild _ hinputs h

theorem wellBuilt_mapExprs {p q : Plan} {f : Expr → Except Error Expr.Change} (hp : WellBuilt p)
    (h : p.mapExprs f = .ok q) : WellBuilt q := by
  obtain ⟨changes, -, h⟩ := bind_eq_ok.mp h
  split at h
  · cases h
    exact hp
  · exact wellBuilt_of_rebuild _ hp.inputs h

/-- **Reachable plans are well built.** By induction on how the plan was made. -/
theorem Reachable.wellBuilt {p : Plan} (h : Reachable p) : WellBuilt p := by
  induction h with
  | scan h => exact wellBuilt_leaf (.scan _) h
  | scanById h =>
      obtain ⟨entity, h⟩ := scanById_eq_rebuild h
      exact wellBuilt_leaf _ h
  | filter _ h ih =>
      exact wellBuilt_over (.filter _) ih h
  | project _ h ih =>
      obtain ⟨columns, -, h⟩ := project_eq_rebuild h
      exact wellBuilt_over _ ih h
  | patternMatch _ h ih =>
      obtain ⟨bindings, -, h⟩ := patternMatch_eq_rebuild h
      exact wellBuilt_over _ ih h
  | aggregate _ h ih =>
      exact wellBuilt_over (.aggregate _ _) ih h
  | modify _ h ih =>
      obtain ⟨targets, -, h⟩ := modify_eq_rebuild h
      exact wellBuilt_over _ ih h
  | unwind _ h ih =>
      exact wellBuilt_over (.unwind _ _) ih h
  | values h => exact wellBuilt_leaf (.values _) h
  | call h => exact wellBuilt_leaf (.call _) h
  | transform _ h ih => exact wellBuilt_of_rebuild (.transform _) ih h
  | sort _ h ih =>
      exact wellBuilt_over (.sort _ _ _) ih h
  | withInputs _ _ h ih ihs => exact wellBuilt_withInputs ih ihs h
  | mapExprs _ h ih => exact wellBuilt_mapExprs ih h
  | rewritten _ h ih => exact wellBuilt_of_rebuild _ ih.inputs h
  | substitutionScan h => exact wellBuilt_substitutionScan h
  | toModel _ h ih => exact wellBuilt_toModel ih h
  | tagged n _ ih => exact ih.tagWith n

/-! ## Inputs of reachable plans -/

theorem inputs_of_rebuild {op : Op} {inputs : List Plan} {schema : Schema} {p : Plan}
    (h : rebuild op inputs schema = .ok p) : p.inputs = inputs := by
  obtain ⟨s, m, rfl, -⟩ := (yields_rebuild op inputs schema).result h
  rfl

theorem reachable_inputs_over (op : Op) {input p : Plan} (hinput : Reachable input)
    (h : rebuild op [input] [] = .ok p) : ∀ i ∈ p.inputs, Reachable i := by
  rw [inputs_of_rebuild h]
  exact List.forall_mem_singleton.mpr hinput

theorem reachable_inputs_leaf (op : Op) {p : Plan} (h : rebuild op [] [] = .ok p) :
    ∀ i ∈ p.inputs, Reachable i := by
  rw [inputs_of_rebuild h]
  exact List.forall_mem_nil _

/-- What a reachable plan reads is reachable. -/
theorem Reachable.inputs {p : Plan} (h : Reachable p) : ∀ input ∈ p.inputs, Reachable input := by
  induction h with
  | scan h => exact reachable_inputs_leaf (.scan _) h
  | scanById h =>
      obtain ⟨entity, h⟩ := scanById_eq_rebuild h
      exact reachable_inputs_leaf _ h
  | filter hinput h => exact reachable_inputs_over (.filter _) hinput h
  | project hinput h =>
      obtain ⟨columns, -, h⟩ := project_eq_rebuild h
      exact reachable_inputs_over _ hinput h
  | patternMatch hinput h =>
      obtain ⟨bindings, -, h⟩ := patternMatch_eq_rebuild h
      exact reachable_inputs_over _ hinput h
  | aggregate hinput h => exact reachable_inputs_over (.aggregate _ _) hinput h
  | modify hinput h =>
      obtain ⟨targets, -, h⟩ := modify_eq_rebuild h
      exact reachable_inputs_over _ hinput h
  | unwind hinput h => exact reachable_inputs_over (.unwind _ _) hinput h
  | values h => exact reachable_inputs_leaf (.values _) h
  | call h => exact reachable_inputs_leaf (.call _) h
  | transform hinputs h =>
      rw [(yields_transform _ _ _).result h]
      exact hinputs
  | sort hinput h => exact reachable_inputs_over (.sort _ _ _) hinput h
  | withInputs _ hinputs h ih =>
      unfold Plan.withInputs at h
      split at h
      · cases h
        exact ih
      · rw [inputs_of_rebuild h]
        exact hinputs
  | mapExprs _ h ih =>
      obtain ⟨changes, -, h⟩ := bind_eq_ok.mp h
      split at h
      · cases h
        exact ih
      · rw [inputs_of_rebuild h]
        exact ih
  | rewritten _ h ih =>
      rw [inputs_of_rebuild h]
      exact ih
  | substitutionScan h =>
      obtain ⟨info, -, -, rfl⟩ := (yields_substitutionScan _ _ _).result h
      intro input hinput
      obtain ⟨entity, -, rfl⟩ := List.mem_map.mp hinput
      exact .scan rfl
  | toModel hp h ih =>
      unfold Plan.toModel at h
      split at h
      · cases h
        exact ih
      · rw [(yields_transform _ _ _).result h]
        exact List.forall_mem_singleton.mpr hp
  | tagged n _ ih => exact ih

/-! ## Well-built plans pass the check -/

theorem fingerprint_untag (tag : Option Nat) (op : Op) (inputs : List Plan)
    (schema : Schema) (model : Model) :
    fingerprint ⟨tag, op, inputs, schema, model⟩ =
      fingerprint ⟨none, op, inputs, schema, model⟩ := by
  simp only [fingerprint, headline, kind]

/-- A node of a well-built plan, made again, is that node without its tag. -/
theorem WellBuilt.again {p : Plan} (h : WellBuilt p) :
    rebuild p.op p.inputs p.schema = .ok ⟨none, p.op, p.inputs, p.schema, p.model⟩ := by
  cases h with
  | node _ hagain => exact hagain

theorem WellBuilt.isNodeOf {n p : Plan} (hn : IsNodeOf n p) (hp : WellBuilt p) : WellBuilt n := by
  induction hn with
  | self => exact hp
  | input _ hmem ih => exact ih (hp.inputs _ hmem)

theorem validateAll_eq_ok {ps : List Plan} (h : ∀ p ∈ ps, p.validate = .ok ()) :
    validateAll ps = .ok () := by
  induction ps with
  | nil => simp [validateAll]
  | cons p ps ih =>
      obtain ⟨hp, hps⟩ := List.forall_mem_cons.mp h
      simp [validateAll, hp, ih hps]

theorem WellBuilt.validate {p : Plan} (h : WellBuilt p) : p.validate = .ok () := by
  induction h with
  | @node tag op inputs schema model _ hagain ih =>
      have hinputs := validateAll_eq_ok ih
      rw [Plan.validate, hinputs, ok_bind, hagain, ok_bind, fingerprint_untag tag]
      simp

end QueryPlan.Plan
