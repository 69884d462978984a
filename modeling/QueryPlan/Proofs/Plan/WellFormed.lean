import QueryPlan.Proofs.Expr.WellTyped
import QueryPlan.Proofs.Plan.Validity

/-!
# Well-formed plans

`Plan.Assembled` are the plans that come from the constructors over built expressions, from changing
inputs, and from replacing parts of expressions or numbering their references anew.

A node of such a plan is well formed for two reasons. What its constructor checks is true of it,
since the node made again comes out as it is (`Reachable.wellBuilt`). What no constructor checks,
the types that expressions record, is kept by every way to make a plan (`Assembled.typed`).
-/

namespace QueryPlan

/-- What becomes of an expression when a part is replaced by a built expression or its references
are numbered anew. -/
inductive Expr.Rewritten (e : Expr) : Expr.Change → Prop
  | replace {target replacement : Expr} {c : Expr.Change} :
      replacement.Built → Expr.replace target replacement e = .ok c → Expr.Rewritten e c
  | remap {mapping : List Nat} {c : Expr.Change} :
      Expr.remap mapping e = .ok c → Expr.Rewritten e c

/-- The fields of the input that a payload names by their positions, expressions apart. -/
def Op.indices : Op → List Nat
  | .aggregate keys calls => keys ++ calls.flatMap Aggregate.args
  | .unwind index _ => [index]
  | .sort keys _ _ => keys.map SortKey.index
  | _ => []

namespace Plan

/-- Plans made over built expressions, and rewritten. -/
inductive Assembled : Plan → Prop
  | scan {entity : Entity} {p : Plan} : Plan.scan entity = .ok p → Assembled p
  | scanById {catalog : Catalog} {id : EntityId} {p : Plan} :
      Plan.scanById catalog id = .ok p → Assembled p
  | filter {input : Plan} {predicate : Expr} {p : Plan} : Assembled input → predicate.Built →
      Plan.filter input predicate = .ok p → Assembled p
  | project {input : Plan} {exprs : List Expr} {names : List (Option String)} {p : Plan} :
      Assembled input → (∀ e ∈ exprs, e.Built) → Plan.project input exprs names = .ok p →
      Assembled p
  | patternMatch {input : Plan} {calls : List Expr} {names : List String} {p : Plan} :
      Assembled input → (∀ e ∈ calls, e.Built) → Plan.patternMatch input calls names = .ok p →
      Assembled p
  | aggregate {input : Plan} {keys : List Nat} {calls : List Aggregate} {p : Plan} :
      Assembled input → Plan.aggregate input keys calls = .ok p → Assembled p
  | modify {entity : Entity} {input : Plan} {write : Write} {names : List String}
      {exprs : List Expr} {p : Plan} :
      Assembled input → (∀ e ∈ exprs, e.Built) →
      Plan.modify entity input write names exprs = .ok p → Assembled p
  | unwind {input : Plan} {index : Nat} {asName : String} {p : Plan} :
      Assembled input → Plan.unwind input index asName = .ok p → Assembled p
  | values {v : LiteralRows} {p : Plan} : Plan.values v = .ok p → Assembled p
  | call {c : ProcedureCall} {p : Plan} : Plan.call c = .ok p → Assembled p
  | transform {inputs : List Plan} {schema : Schema} {c : Conversion} {p : Plan} :
      (∀ input ∈ inputs, Assembled input) → Plan.transform inputs schema c = .ok p → Assembled p
  | sort {input : Plan} {keys : List SortKey} {offset limit : Option Nat} {p : Plan} :
      Assembled input → Plan.sort input keys offset limit = .ok p → Assembled p
  | withInputs {p q : Plan} {inputs : List Plan} : Assembled p →
      (∀ input ∈ inputs, Assembled input) → p.withInputs inputs = .ok q → Assembled q
  | mapExprs {p q : Plan} {f : Expr → Except Error Expr.Change} : Assembled p →
      (∀ e c, f e = .ok c → e.Rewritten c) → p.mapExprs f = .ok q → Assembled q
  /-- A rewriting function may use another replacement or numbering each time it is asked. -/
  | rewritten {p q : Plan} {changes : List Expr.Change} : Assembled p →
      List.Forall₂ Expr.Rewritten p.op.exprs changes →
      rebuild (p.op.withExprs (Expr.Change.results p.op.exprs changes)) p.inputs p.schema = .ok q →
      Assembled q
  /-- Keeping a plan tags it. -/
  | tagged {p : Plan} (n : Nat) : Assembled p → Assembled (p.tagWith n)

/-- What the constructors check. -/
structure Checked (n : Plan) : Prop where
  /-- A reference names a field of the one input, with the type that field has. -/
  refs : ∀ e ∈ n.op.exprs, ∀ index ty, (Expr.ref index ty).IsPartOf e →
    ∃ input field, n.inputs = [input] ∧ input.schema[index]? = some field ∧ field.ty = ty
  /-- Keys, arguments and positions lie inside the schema of the one input. -/
  indices : ∀ index ∈ n.op.indices, ∃ input, n.inputs = [input] ∧ index < input.schema.length
  predicate : ∀ predicate, n.op = .filter predicate →
    predicate.ty = .bool ∨ predicate.ty = .any ∨ predicate.ty = .null
  model : n.op.isTransform = false → ∀ input ∈ n.inputs, input.model = n.model
  conversion : ∀ c, n.op = .transform c →
    n.model = c.target ∧ ∀ input ∈ n.inputs, input.model = c.source

/-- A node that is checked and whose expressions record their types in every part. -/
structure WellFormed (n : Plan) : Prop extends Checked n where
  typed : ∀ e ∈ n.op.exprs, ∀ s : Expr, s.IsPartOf e → s.RecordsType

/-! ## What the constructors check -/

/-- References that were checked against an input are references to its fields. -/
theorem refs_of_checkRefs {input : Plan} {exprs : List Expr} {u : Unit}
    (h : checkRefs input.schema exprs = .ok u) :
    ∀ e ∈ exprs, ∀ index ty, (Expr.ref index ty).IsPartOf e →
      ∃ i field, [input] = [i] ∧ i.schema[index]? = some field ∧ field.ty = ty := by
  intro e he index ty hpart
  have hmem : (index, ty) ∈ Expr.refsAll exprs :=
    Expr.mem_refsAll.mpr ⟨e, he, Expr.mem_refs_of_isPartOf hpart⟩
  obtain ⟨field, hfield, hty⟩ := checkAll_eq_ok.mp h _ hmem
  exact ⟨input, field, rfl, hfield, hty⟩

/-- Unless it changes the model, a new node has the model of its inputs. -/
theorem model_of_build {op : Op} {inputs : List Plan} {schema : Schema} {model : Model} {p : Plan}
    (h : build op inputs schema model = .ok p) (hop : op.isTransform = false) :
    ∀ input ∈ inputs, input.model = model := by
  unfold build strangeInput? at h
  rw [hop] at h
  split at h
  · cases h
  · next hnone =>
      intro input hinput
      simpa using List.find?_eq_none.mp hnone input hinput

section Constructors

variable {input p : Plan}

theorem checked_leaf {op : Op} {schema : Schema} {model : Model} (hexprs : op.exprs = [])
    (hindices : op.indices = []) (hop : op.arity = 0) :
    Checked ⟨none, op, [], schema, model⟩ where
  refs := by simp [hexprs]
  indices := by simp [hindices]
  predicate := by
    rintro predicate rfl
    cases hop
  model := fun _ => List.forall_mem_nil _
  conversion := by
    rintro c rfl
    cases hop

theorem checked_filter {predicate : Expr} (h : filter input predicate = .ok p) : Checked p := by
  obtain rfl := (yields_filter input predicate).result h
  obtain ⟨_, hpredicate, h⟩ := bind_eq_ok.mp h
  obtain ⟨_, hrefs, h⟩ := bind_eq_ok.mp h
  refine ⟨refs_of_checkRefs hrefs, List.forall_mem_nil _, ?_, fun hop => model_of_build h hop,
    nofun⟩
  intro e he
  cases he
  have hty : predicate.ty.isBooleanLike = true := require_eq_ok.mp hpredicate
  cases hp : predicate.ty <;> simp [hp, Ty.isBooleanLike] at hty ⊢

theorem checked_projectColumns {columns : List Column} (h : projectColumns input columns = .ok p) :
    Checked p := by
  obtain rfl := (yields_projectColumns input columns).result h
  obtain ⟨_, hrefs, h⟩ := bind_eq_ok.mp h
  exact ⟨refs_of_checkRefs hrefs, List.forall_mem_nil _, nofun, fun hop => model_of_build h hop,
    nofun⟩

theorem checked_matchBindings {bindings : List Binding} (h : matchBindings input bindings = .ok p) :
    Checked p := by
  obtain rfl := (yields_matchBindings input bindings).result h
  unfold matchBindings at h
  split at h
  · cases h
  · obtain ⟨_, hrefs, h⟩ := bind_eq_ok.mp h
    exact ⟨refs_of_checkRefs hrefs, List.forall_mem_nil _, nofun, fun hop => model_of_build h hop,
      nofun⟩

theorem checked_patternMatch {bindings : List Binding}
    (h : patternMatch input (bindings.map Binding.expr) (bindings.map Binding.name) = .ok p) :
    Checked p := by
  obtain ⟨_, _, h⟩ := bind_eq_ok.mp h
  obtain ⟨pairs, hpairs, h⟩ := bind_eq_ok.mp h
  exact checked_matchBindings h

theorem checked_aggregate {keys : List Nat} {calls : List Aggregate}
    (h : aggregate input keys calls = .ok p) : Checked p := by
  obtain rfl := (yields_aggregate input keys calls).result h
  dsimp only [aggregate] at h
  split at h
  · cases h
  · next hnone =>
      refine ⟨List.forall_mem_nil _, ?_, nofun, fun hop => model_of_build h hop, nofun⟩
      intro index hindex
      exact ⟨input, rfl, by simpa using List.find?_eq_none.mp hnone index hindex⟩

theorem checked_modifyTargets {entity : Entity} {write : Write} {targets : List Binding}
    (h : modifyTargets entity input write targets = .ok p) : Checked p := by
  obtain rfl := (yields_modifyTargets entity input write targets).result h
  obtain ⟨_, hrefs, h⟩ := bind_eq_ok.mp h
  exact ⟨refs_of_checkRefs hrefs, List.forall_mem_nil _, nofun, fun hop => model_of_build h hop,
    nofun⟩

theorem checked_modify {entity : Entity} {write : Write} {names : List String} {exprs : List Expr}
    (h : modify entity input write names exprs = .ok p) : Checked p := by
  unfold modify at h
  split at h
  all_goals
    obtain ⟨_, _, h⟩ := bind_eq_ok.mp h
    obtain ⟨pairs, _, h⟩ := bind_eq_ok.mp h
    exact checked_modifyTargets h

theorem checked_unwind {index : Nat} {asName : String} (h : unwind input index asName = .ok p) :
    Checked p := by
  obtain ⟨ty, rfl⟩ := (yields_unwind input index asName).result h
  unfold unwind at h
  split at h
  · cases h
  · next field hfield =>
      obtain ⟨hindex, -⟩ := List.getElem?_eq_some_iff.mp hfield
      have hmodel : ∀ i ∈ [input], i.model = input.model := by simp
      refine ⟨List.forall_mem_nil _, ?_, nofun, fun _ => hmodel, nofun⟩
      exact List.forall_mem_singleton.mpr ⟨input, rfl, hindex⟩

theorem checked_call {c : ProcedureCall} (h : call c = .ok p) : Checked p ∧ p.op.exprs = [] := by
  obtain ⟨schema, rfl⟩ := (yields_call c).result h
  have hexprs : (Op.call c).exprs = [] := by
    unfold call at h
    split at h
    · cases h
    · obtain ⟨_, hempty, -⟩ := bind_eq_ok.mp h
      exact List.isEmpty_iff.mp (require_eq_ok.mp hempty)
  exact ⟨checked_leaf hexprs rfl rfl, hexprs⟩

theorem checked_transform {inputs : List Plan} {schema : Schema} {c : Conversion}
    (h : transform inputs schema c = .ok p) : Checked p := by
  obtain rfl := (yields_transform inputs schema c).result h
  obtain ⟨_, _, h⟩ := bind_eq_ok.mp h
  obtain ⟨_, _, h⟩ := bind_eq_ok.mp h
  dsimp only at h
  split at h
  · cases h
  · next hnone =>
      refine ⟨List.forall_mem_nil _, List.forall_mem_nil _, nofun, nofun, ?_⟩
      intro c' hc
      cases hc
      exact ⟨rfl, fun input hinput => by simpa using List.find?_eq_none.mp hnone input hinput⟩

theorem checked_sort {keys : List SortKey} {offset limit : Option Nat}
    (h : sort input keys offset limit = .ok p) : Checked p := by
  obtain rfl := (yields_sort input keys offset limit).result h
  dsimp only [sort] at h
  split at h
  · cases h
  · next hnone =>
      refine ⟨List.forall_mem_nil _, ?_, nofun, fun hop => model_of_build h hop, nofun⟩
      intro index hindex
      obtain ⟨key, hkey, rfl⟩ := List.mem_map.mp hindex
      exact ⟨input, rfl, by simpa using List.find?_eq_none.mp hnone key hkey⟩

end Constructors

/-- **A node that comes out of its constructor is checked.** -/
theorem checked_of_rebuild {op : Op} {inputs : List Plan} {schema : Schema} {p : Plan}
    (h : rebuild op inputs schema = .ok p) : Checked p := by
  unfold rebuild at h
  split at h
  · exact checked_transform h
  · obtain rfl := (yields_scan _).result h
    exact checked_leaf rfl rfl rfl
  · exact checked_filter h
  · exact checked_projectColumns h
  · exact checked_patternMatch h
  · exact checked_aggregate h
  · exact checked_modify h
  · exact checked_unwind h
  · obtain rfl := (yields_values _).result h
    exact checked_leaf rfl rfl rfl
  · exact (checked_call h).1
  · exact checked_sort h
  · cases h

/-! ## Types that are recorded -/

/-- The expressions of all nodes are well typed. -/
def Typed (p : Plan) : Prop := ∀ n : Plan, n.IsNodeOf p → ∀ e ∈ n.op.exprs, e.WellTyped

theorem Typed.inputs {p : Plan} (h : Typed p) : ∀ input ∈ p.inputs, Typed input :=
  fun _ hinput n hn => h n (.input hn hinput)

/-- A node with well-typed expressions over typed plans is typed. -/
theorem typed_of_rebuild (op : Op) {inputs : List Plan} {schema : Schema} {p : Plan}
    (hexprs : ∀ e ∈ op.exprs, e.WellTyped) (hinputs : ∀ input ∈ inputs, Typed input)
    (h : rebuild op inputs schema = .ok p) : Typed p := by
  obtain ⟨s, m, rfl, -⟩ := (yields_rebuild op inputs schema).result h
  intro n hn
  cases hn with
  | self => exact hexprs
  | input hn hinput => exact hinputs _ hinput n hn

theorem typed_over (op : Op) {input p : Plan} (hexprs : ∀ e ∈ op.exprs, e.WellTyped)
    (hinput : Typed input) (h : rebuild op [input] [] = .ok p) : Typed p :=
  typed_of_rebuild op hexprs (List.forall_mem_singleton.mpr hinput) h

theorem typed_leaf (op : Op) {p : Plan} (hexprs : op.exprs = [])
    (h : rebuild op [] [] = .ok p) : Typed p :=
  typed_of_rebuild op (by simp [hexprs]) (List.forall_mem_nil _) h

theorem mem_of_mem_zipWith {α : Type} {put : α → Expr → α} {get : α → Expr}
    (hget : ∀ a e, get (put a e) = e) {as : List α} {es : List Expr} {e : Expr}
    (h : e ∈ (as.zipWith put es).map get) : e ∈ es := by
  induction as generalizing es with
  | nil => simp at h
  | cons a as ih =>
      cases es with
      | nil => simp at h
      | cons first es =>
          rcases List.mem_cons.mp h with rfl | h
          · rw [hget]
            exact List.mem_cons_self
          · exact List.mem_cons_of_mem first (ih h)

/-- Putting other expressions into a payload brings in no expression from elsewhere. -/
theorem mem_exprs_withExprs {op : Op} {es : List Expr} {e : Expr}
    (h : e ∈ (op.withExprs es).exprs) : e ∈ es ∨ e ∈ op.exprs := by
  cases op with
  | filter predicate =>
      cases es with
      | nil => exact Or.inr h
      | cons first es =>
          rw [List.mem_singleton.mp h]
          exact Or.inl List.mem_cons_self
  | project columns => exact Or.inl (mem_of_mem_zipWith (fun _ _ => rfl) h)
  | bind bindings => exact Or.inl (mem_of_mem_zipWith (fun _ _ => rfl) h)
  | modify entity write targets => exact Or.inl (mem_of_mem_zipWith (fun _ _ => rfl) h)
  | call c => exact Or.inl h
  | _ => exact Or.inr h

theorem wellTyped_of_rewritten {e : Expr} {c : Expr.Change} (he : e.WellTyped)
    (h : e.Rewritten c) : (c.result e).WellTyped := by
  cases h with
  | replace hbuilt h => exact Expr.wellTyped_replace he hbuilt.wellTyped h
  | remap h => exact Expr.wellTyped_remap he h

/-- Each expression of a payload is changed by the function. -/
theorem changeAll_eq_ok {f : Expr → Except Error Expr.Change} {es : List Expr}
    {cs : List Expr.Change} (h : changeAll f es = .ok cs) :
    List.Forall₂ (fun e c => f e = .ok c) es cs := by
  induction es generalizing cs with
  | nil =>
      cases h
      exact .nil
  | cons e es ih =>
      obtain ⟨c, hc, h⟩ := bind_eq_ok.mp h
      obtain ⟨rest, hrest, h⟩ := bind_eq_ok.mp h
      cases h
      exact .cons hc (ih hrest)

/-- A typed node made again over rewritten expressions is typed. -/
theorem Typed.rewritten {p q : Plan} {changes : List Expr.Change} (hp : Typed p)
    (hchanges : List.Forall₂ Expr.Rewritten p.op.exprs changes)
    (h : rebuild (p.op.withExprs (Expr.Change.results p.op.exprs changes)) p.inputs p.schema =
      .ok q) : Typed q := by
  have hexprs : ∀ e ∈ p.op.exprs, e.WellTyped := hp p (.self p)
  have hresults : ∀ e ∈ Expr.Change.results p.op.exprs changes, e.WellTyped := by
    refine Expr.wellTyped_results ?_
    refine List.forall₂_iff_get.mpr ⟨hchanges.length_eq, fun i hi hi' => ?_⟩
    exact wellTyped_of_rewritten (hexprs _ (List.get_mem _ _)) (hchanges.get hi hi')
  refine typed_of_rebuild _ ?_ hp.inputs h
  intro e he
  rcases mem_exprs_withExprs he with hnew | hold
  · exact hresults e hnew
  · exact hexprs e hold

/-! ## Assembled plans -/

theorem Assembled.reachable {p : Plan} (h : Assembled p) : Reachable p := by
  induction h with
  | scan h => exact .scan h
  | scanById h => exact .scanById h
  | filter _ _ h ih => exact .filter ih h
  | project _ _ h ih => exact .project ih h
  | patternMatch _ _ h ih => exact .patternMatch ih h
  | aggregate _ h ih => exact .aggregate ih h
  | modify _ _ h ih => exact .modify ih h
  | unwind _ h ih => exact .unwind ih h
  | values h => exact .values h
  | call h => exact .call h
  | transform _ h ih => exact .transform ih h
  | sort _ h ih => exact .sort ih h
  | withInputs _ _ h ih ihs => exact .withInputs ih ihs h
  | mapExprs _ _ h ih => exact .mapExprs ih h
  | rewritten _ _ h ih => exact .rewritten ih h
  | tagged n _ ih => exact .tagged n ih

/-- **Every way to make a plan keeps its expressions well typed.** By induction on how the plan was
made. -/
theorem Assembled.typed {p : Plan} (h : Assembled p) : Typed p := by
  induction h with
  | scan h => exact typed_leaf (.scan _) rfl h
  | scanById h =>
      obtain ⟨entity, h⟩ := scanById_eq_rebuild h
      exact typed_leaf _ rfl h
  | filter _ hbuilt h ih =>
      exact typed_over (.filter _) (List.forall_mem_singleton.mpr hbuilt.wellTyped) ih h
  | project _ hbuilt h ih =>
      obtain ⟨columns, rfl, hnode⟩ := project_eq_rebuild h
      exact typed_over (.project columns) (fun e he => (hbuilt e he).wellTyped) ih hnode
  | patternMatch _ hbuilt h ih =>
      obtain ⟨bindings, rfl, hnode⟩ := patternMatch_eq_rebuild h
      exact typed_over (.bind bindings) (fun e he => (hbuilt e he).wellTyped) ih hnode
  | aggregate _ h ih => exact typed_over (.aggregate _ _) (List.forall_mem_nil _) ih h
  | modify _ hbuilt h ih =>
      obtain ⟨targets, rfl, hnode⟩ := modify_eq_rebuild h
      exact typed_over (.modify _ _ targets) (fun e he => (hbuilt e he).wellTyped) ih hnode
  | unwind _ h ih => exact typed_over (.unwind _ _) (List.forall_mem_nil _) ih h
  | values h => exact typed_leaf (.values _) rfl h
  | @call c p h =>
      have hexprs : (Op.call c).exprs = [] := by
        have hnone := (checked_call h).2
        obtain ⟨schema, rfl⟩ := (yields_call c).result h
        exact hnone
      exact typed_leaf (.call c) hexprs h
  | transform _ h ih => exact typed_of_rebuild (.transform _) (List.forall_mem_nil _) ih h
  | sort _ h ih => exact typed_over (.sort _ _ _) (List.forall_mem_nil _) ih h
  | @withInputs p q inputs _ _ h ih ihs =>
      unfold Plan.withInputs at h
      split at h
      · cases h
        exact ih
      · exact typed_of_rebuild p.op (ih p (.self p)) ihs h
  | @mapExprs p q f _ hf h ih =>
      obtain ⟨changes, hchanges, h⟩ := bind_eq_ok.mp h
      split at h
      · cases h
        exact ih
      · exact ih.rewritten ((changeAll_eq_ok hchanges).imp fun e c => hf e c) h
  | rewritten _ hchanges h ih => exact ih.rewritten hchanges h
  | @tagged p n _ ih =>
      intro m hm
      cases hm with
      | self => exact ih p (.self p)
      | input hm hinput => exact ih m (.input hm hinput)

/-- **Assembled plans are well formed all the way down.** In every node the expressions record the
types that follow from their parts, references and positions fit the input, a predicate can be
tested, and the model is that of the inputs unless the node is there to change it. -/
theorem assembled_nodes_wellFormed {p n : Plan} (hp : p.Assembled) (hn : n.IsNodeOf p) :
    n.WellFormed := by
  -- Made again, the node is itself but for its tag, which no check looks at.
  have hagain := (hp.reachable.wellBuilt.isNodeOf hn).again
  have hchecked := checked_of_rebuild hagain
  refine ⟨⟨hchecked.refs, hchecked.indices, hchecked.predicate, hchecked.model,
    hchecked.conversion⟩, ?_⟩
  intro e he s hs
  exact ((hp.typed n hn e he).part hs).recordsType

/-- A filter over a table with two columns, its references exchanged. -/
theorem renumbered_filter_wellFormed :
    ∃ scan filtered renumbered : Plan,
      Plan.scan ⟨⟨1⟩, "t", ⟨0⟩, .relational, [⟨"a", .int64⟩, ⟨"b", .int64⟩]⟩ = .ok scan ∧
      Plan.filter scan (.apply .lt [.ref 0 .int64, .ref 1 .int64] .bool) = .ok filtered ∧
      filtered.mapExprs (Expr.remap [1, 0]) = .ok renumbered ∧
      renumbered.op = .filter (.apply .lt [.ref 1 .int64, .ref 0 .int64] .bool) ∧
      scan.IsNodeOf renumbered ∧ renumbered.WellFormed ∧ scan.WellFormed := by
  have hmade : ∃ scan filtered renumbered : Plan,
      Plan.scan ⟨⟨1⟩, "t", ⟨0⟩, .relational, [⟨"a", .int64⟩, ⟨"b", .int64⟩]⟩ = .ok scan ∧
      Plan.filter scan (.apply .lt [.ref 0 .int64, .ref 1 .int64] .bool) = .ok filtered ∧
      filtered.mapExprs (Expr.remap [1, 0]) = .ok renumbered ∧
      renumbered.op = .filter (.apply .lt [.ref 1 .int64, .ref 0 .int64] .bool) ∧
      scan.IsNodeOf renumbered :=
    ⟨_, _, _, rfl, rfl, rfl, rfl, .input (.self _) List.mem_cons_self⟩
  obtain ⟨scan, filtered, renumbered, hscan, hfiltered, hrenumbered, hop, hnode⟩ := hmade
  have hpredicate : (Expr.apply .lt [.ref 0 .int64, .ref 1 .int64] .bool).Built := by
    have hcall : Expr.call .lt [.ref 0 .int64, .ref 1 .int64] =
        .ok (.apply .lt [.ref 0 .int64, .ref 1 .int64] .bool) := rfl
    refine .call ?_ hcall
    intro o ho
    rcases List.mem_cons.mp ho with rfl | ho
    · exact .ref 0 .int64
    · rw [List.mem_singleton.mp ho]
      exact .ref 1 .int64
  have hassembled : renumbered.Assembled :=
    .mapExprs (.filter (.scan hscan) hpredicate hfiltered) (fun _ _ h => .remap h) hrenumbered
  exact ⟨scan, filtered, renumbered, hscan, hfiltered, hrenumbered, hop, hnode,
    assembled_nodes_wellFormed hassembled (.self _), assembled_nodes_wellFormed hassembled hnode⟩

end Plan

end QueryPlan
