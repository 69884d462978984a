import QueryPlan.Proofs.Expr.Substitution
import QueryPlan.Proofs.Plan.WellFormed

/-!
# Replacing expressions in plans

A node made again over other expressions passes its checks if each of them has the type of the one
whose place it takes and refers to fields that there are (`rebuild_withExprs`). A match is the one
exception: it accepts only calls of patterns.

Where what is replaced is no literal, something of the same type can take its place in every
well-typed expression. So it can in the expressions of every node that is no match, which keeps its
inputs, its names, its schema and its model (`replacement_keeps_node`).
-/

namespace QueryPlan

/-! ## Payloads over other expressions -/

/-- The names that a payload gives to its expressions. -/
def Op.names : Op → List (Option String)
  | project columns => columns.map Column.name
  | bind bindings => bindings.map fun b => some b.name
  | modify _ _ targets => targets.map fun b => some b.name
  | _ => []

section

variable {α γ : Type} {put : α → Expr → α} {R : α → Expr → Prop} {as : List α} {es : List Expr}

/-- What is seen of the members stays if no member shows its new expression. -/
theorem map_zipWith_of_forall₂ {view : α → γ} (h : List.Forall₂ R as es)
    (hview : ∀ a e, R a e → view (put a e) = view a) :
    (as.zipWith put es).map view = as.map view := by
  induction h with
  | nil => rfl
  | cons hfirst _ ih =>
      rw [List.zipWith_cons_cons, List.map_cons, List.map_cons, ih, hview _ _ hfirst]

/-- The expressions put in are those found afterwards. -/
theorem map_get_zipWith {get : α → Expr} (h : List.Forall₂ R as es)
    (hget : ∀ a e, get (put a e) = e) : (as.zipWith put es).map get = es := by
  induction h with
  | nil => rfl
  | cons _ _ ih => rw [List.zipWith_cons_cons, List.map_cons, hget, ih]

theorem zipWith_map_self {get : α → Expr} (h : ∀ a, put a (get a) = a) (as : List α) :
    as.zipWith put (as.map get) = as := by
  rw [List.zipWith_map_right, List.zipWith_self]
  simp only [h, List.map_id']

end

namespace Op

theorem withExprs_exprs (op : Op) : op.withExprs op.exprs = op := by
  cases op with
  | project columns => exact congrArg project (zipWith_map_self (fun _ => rfl) columns)
  | bind bindings => exact congrArg bind (zipWith_map_self (fun _ => rfl) bindings)
  | modify entity write targets =>
      exact congrArg (modify entity write) (zipWith_map_self (fun _ => rfl) targets)
  | _ => rfl

theorem names_withExprs {op : Op} {R : Expr → Expr → Prop} {es : List Expr}
    (h : List.Forall₂ R op.exprs es) : (op.withExprs es).names = op.names := by
  cases op with
  | project columns =>
      exact map_zipWith_of_forall₂ (List.forall₂_map_left_iff.mp h) fun _ _ _ => rfl
  | bind bindings =>
      exact map_zipWith_of_forall₂ (List.forall₂_map_left_iff.mp h) fun _ _ _ => rfl
  | modify entity write targets =>
      exact map_zipWith_of_forall₂ (List.forall₂_map_left_iff.mp h) fun _ _ _ => rfl
  | _ => rfl

end Op

theorem Column.fields_eq (columns : List Column) : Column.fields columns =
    (columns.map fun c => c.name.map fun name => (⟨name, c.expr.ty⟩ : Field)).filterMap id := by
  rw [List.filterMap_map]
  rfl

namespace Plan

theorem checkRefs_eq_ok {schema : Schema} {es : List Expr} {u : Unit} :
    checkRefs schema es = .ok u ↔
      ∀ e ∈ es, ∀ r ∈ e.refs, ∃ field, schema[r.1]? = some field ∧ field.ty = r.2 := by
  rw [checkRefs, checkAll_eq_ok]
  constructor
  · intro h e he r hr
    exact h r (Expr.mem_refsAll.mpr ⟨e, he, hr⟩)
  · intro h r hr
    obtain ⟨e, he, hr⟩ := Expr.mem_refsAll.mp hr
    exact h e he r hr

/-- **A node that is no match can be made again over expressions of the same types**, if they refer
to fields that there are. -/
theorem rebuild_withExprs {op : Op} {inputs : List Plan} {schema : Schema} {model : Model}
    {es : List Expr} (hagain : rebuild op inputs schema = .ok ⟨none, op, inputs, schema, model⟩)
    (hop : ∀ bindings, op ≠ .bind bindings)
    (htypes : List.Forall₂ (fun e e' => e'.ty = e.ty) op.exprs es)
    (hrefs : ∀ input ∈ inputs, ∀ e ∈ es, ∀ r ∈ e.refs,
      ∃ field, input.schema[r.1]? = some field ∧ field.ty = r.2) :
    rebuild (op.withExprs es) inputs schema =
      .ok ⟨none, op.withExprs es, inputs, schema, model⟩ := by
  cases op with
  | filter predicate =>
      obtain ⟨input, rfl⟩ := exists_input_of_rebuild hagain rfl rfl
      obtain ⟨hboolean, -, hnode⟩ := filter_eq_ok.mp hagain
      cases hnode
      rcases htypes with _ | ⟨hty, _ | _⟩
      refine filter_eq_ok.mpr ⟨?_, checkRefs_eq_ok.mpr (hrefs input List.mem_cons_self), rfl⟩
      show Ty.isBooleanLike (Expr.ty _) = true
      rw [List.head?_cons, Option.getD_some, hty]
      exact hboolean
  | project columns =>
      obtain ⟨input, rfl⟩ := exists_input_of_rebuild hagain rfl rfl
      obtain ⟨-, hnode⟩ := projectColumns_eq_ok.mp hagain
      cases hnode
      have hcolumns := List.forall₂_map_left_iff.mp htypes
      have hfields : Column.fields (columns.zipWith (fun c e => { c with expr := e }) es) =
          Column.fields columns := by
        rw [Column.fields_eq, Column.fields_eq, map_zipWith_of_forall₂ hcolumns]
        intro c e hty
        show c.name.map _ = c.name.map _
        rw [hty]
      refine projectColumns_eq_ok.mpr ⟨checkRefs_eq_ok.mpr ?_, by rw [hfields]; rfl⟩
      rw [map_get_zipWith hcolumns fun _ _ => rfl]
      exact hrefs input List.mem_cons_self
  | modify entity write targets =>
      obtain ⟨input, rfl⟩ := exists_input_of_rebuild hagain rfl rfl
      obtain ⟨hguard, htargets⟩ := modify_eq_ok.mp hagain
      obtain ⟨-, hnode⟩ := modifyTargets_eq_ok.mp htargets
      cases hnode
      have hbindings := List.forall₂_map_left_iff.mp htypes
      refine modify_eq_ok.mpr ⟨?_, modifyTargets_eq_ok.mpr ⟨checkRefs_eq_ok.mpr ?_, rfl⟩⟩
      · have hlength := hbindings.length_eq
        rw [hguard, List.zipWith_eq_nil_iff, ← List.length_eq_zero_iff, ← List.length_eq_zero_iff]
        omega
      · rw [map_get_zipWith hbindings fun _ _ => rfl]
        exact hrefs input List.mem_cons_self
  | bind bindings => exact absurd rfl (hop bindings)
  | call c =>
      -- Calls with arguments are refused, so that there is nothing to put in.
      obtain ⟨home, procedure, arguments, yieldAll, yieldItems⟩ := c
      rcases inputs with _ | ⟨input, inputs⟩
      · obtain rfl : arguments = [] := (checked_call hagain).2
        obtain rfl : es = [] := List.forall₂_nil_left_iff.mp htypes
        exact hagain
      · cases hagain
  | _ => exact hagain

/-! ## Replacing in all expressions of a node -/

theorem changeAll_of_forall₂ {f : Expr → Except Error Expr.Change} {es : List Expr}
    {cs : List Expr.Change} (h : List.Forall₂ (fun e c => f e = .ok c) es cs) :
    changeAll f es = .ok cs := by
  induction h with
  | nil => rfl
  | cons hfirst _ ih =>
      rw [changeAll, hfirst, ok_bind, ih]
      rfl

/-- **Something of the same type can take the place of what is no literal.** In a well-typed
expression it always does, and the type stays. So it does in every node that is no match and whose
inputs have the fields that the replacement refers to: the node keeps its inputs, names, schema and
model, and each of its expressions is the one it had with the replacement put in. -/
theorem replacement_keeps_node (target replacement : Expr) (htarget : target.literal? = none)
    (hty : replacement.ty = target.ty) :
    (∀ e : Expr, e.WellTyped →
      ∃ c, Expr.replace target replacement e = .ok c ∧ (c.result e).ty = e.ty) ∧
    ∀ p : Plan, p.Reachable → (∀ e ∈ p.op.exprs, e.WellTyped) →
      (∀ bindings, p.op ≠ .bind bindings) →
      (∀ input ∈ p.inputs, ∀ r ∈ replacement.refs,
        ∃ field, input.schema[r.1]? = some field ∧ field.ty = r.2) →
      ∃ q exprs, p.mapExprs (Expr.replace target replacement) = .ok q ∧
        List.Forall₂ (fun e e' => ∃ c, Expr.replace target replacement e = .ok c ∧ c.result e = e')
          p.op.exprs exprs ∧
        q.op = p.op.withExprs exprs ∧ q.op.names = p.op.names ∧
        q.inputs = p.inputs ∧ q.schema = p.schema ∧ q.model = p.model := by
  constructor
  · intro e he
    obtain ⟨c, hc, hstands⟩ := Expr.exists_replace htarget hty he
    exact ⟨c, hc, hstands.ty⟩
  · intro p hp hwell hmatch hfields
    have hagain := hp.wellBuilt.again
    have hchecked := checked_of_rebuild hagain
    obtain ⟨changes, hchanges⟩ := exists_forall₂ fun e he =>
      Expr.exists_replace htarget hty (hwell e he)
    have hall : changeAll (Expr.replace target replacement) p.op.exprs = .ok changes :=
      changeAll_of_forall₂ (hchanges.imp fun _ _ h => h.1)
    have hresults : List.Forall₂
        (fun e e' => ∃ c, Expr.replace target replacement e = .ok c ∧ c.result e = e')
        p.op.exprs (Expr.Change.results p.op.exprs changes) :=
      Expr.Change.forall₂_results (hchanges.imp fun e c h => ⟨c, h.1, rfl⟩)
    rw [mapExprs, hall, ok_bind]
    split
    · next hkept =>
        refine ⟨p, p.op.exprs, rfl, ?_, (Op.withExprs_exprs p.op).symm, rfl, rfl, rfl, rfl⟩
        refine List.forall₂_same.mpr fun e he => ⟨.kept, ?_, rfl⟩
        exact (Expr.Change.forall_kept hchanges hkept e he).1
    · have htypes : List.Forall₂ (fun e e' => e'.ty = e.ty) p.op.exprs
          (Expr.Change.results p.op.exprs changes) :=
        Expr.Change.forall₂_results (hchanges.imp fun _ _ h => h.2.ty)
      have hrefs : ∀ input ∈ p.inputs, ∀ e' ∈ Expr.Change.results p.op.exprs changes,
          ∀ r ∈ e'.refs, ∃ field, input.schema[r.1]? = some field ∧ field.ty = r.2 := by
        intro input hinput e' he' r hr
        obtain ⟨e, he, c, hc, rfl⟩ := exists_mem_of_forall₂ hresults he'
        rcases Expr.mem_refs_replace hc r hr with hold | hnew
        · have hpart := Expr.isPartOf_of_mem_refs hold
          obtain ⟨only, field, honly, hfield⟩ := hchecked.refs e he r.1 r.2 hpart
          obtain rfl : input = only := List.mem_singleton.mp (honly ▸ hinput)
          exact ⟨field, hfield⟩
        · exact hfields input hinput r hnew
      refine ⟨_, _, rebuild_withExprs hagain hmatch htypes hrefs, hresults, rfl, ?_, rfl, rfl, rfl⟩
      exact Op.names_withExprs hresults

/-- The sum of two fields. -/
def fieldSum : Expr := .apply .add [.ref 0 .int64, .ref 1 .int64] .int64

/-- Whether the sum is less than the second field. -/
def sumIsLess : Expr := .apply .lt [fieldSum, .ref 1 .int64] .bool

/-- The second field takes the place of the sum, in a column with a name and in one without. -/
theorem fieldSum_replaced :
    ∃ scan projected replaced : Plan,
      Plan.scan ⟨⟨1⟩, "t", ⟨0⟩, .relational, [⟨"a", .int64⟩, ⟨"b", .int64⟩]⟩ = .ok scan ∧
      Plan.project scan [sumIsLess, fieldSum] [some "less", none] = .ok projected ∧
      projected.mapExprs (Expr.replace fieldSum (.ref 1 .int64)) = .ok replaced ∧
      replaced.op.exprs = [.apply .lt [.ref 1 .int64, .ref 1 .int64] .bool, .ref 1 .int64] ∧
      replaced.op.names = projected.op.names ∧ replaced.inputs = projected.inputs ∧
      replaced.schema = projected.schema ∧ replaced.model = projected.model := by
  have hmade : ∃ scan projected replaced : Plan,
      Plan.scan ⟨⟨1⟩, "t", ⟨0⟩, .relational, [⟨"a", .int64⟩, ⟨"b", .int64⟩]⟩ = .ok scan ∧
      Plan.project scan [sumIsLess, fieldSum] [some "less", none] = .ok projected ∧
      projected.mapExprs (Expr.replace fieldSum (.ref 1 .int64)) = .ok replaced ∧
      replaced.op.exprs = [.apply .lt [.ref 1 .int64, .ref 1 .int64] .bool, .ref 1 .int64] ∧
      projected.op.exprs = [sumIsLess, fieldSum] ∧ (∀ bindings, projected.op ≠ .bind bindings) ∧
      projected.inputs = [scan] ∧ scan.schema = [⟨"a", .int64⟩, ⟨"b", .int64⟩] :=
    ⟨_, _, _, rfl, rfl, rfl, rfl, rfl, nofun, rfl, rfl⟩
  obtain ⟨scan, projected, replaced, hscan, hproject, hreplaced, hresult, hexprs, hmatch, hinputs,
    hschema⟩ := hmade
  have hsum : fieldSum.WellTyped := by
    refine .apply (List.forall_mem_cons.mpr ⟨.ref 0 _, ?_⟩) rfl
    exact List.forall_mem_singleton.mpr (.ref 1 _)
  have hless : sumIsLess.WellTyped := by
    refine .apply (List.forall_mem_cons.mpr ⟨hsum, ?_⟩) rfl
    exact List.forall_mem_singleton.mpr (.ref 1 _)
  have hwell : ∀ e ∈ projected.op.exprs, e.WellTyped := by
    rw [hexprs]
    exact List.forall_mem_cons.mpr ⟨hless, List.forall_mem_singleton.mpr hsum⟩
  have hfields : ∀ input ∈ projected.inputs, ∀ r ∈ (Expr.ref 1 .int64).refs,
      ∃ field, input.schema[r.1]? = some field ∧ field.ty = r.2 := by
    intro input hinput r hr
    rw [hinputs] at hinput
    obtain rfl := List.mem_singleton.mp hinput
    obtain rfl := List.mem_singleton.mp hr
    rw [hschema]
    exact ⟨⟨"b", .int64⟩, rfl, rfl⟩
  obtain ⟨q, exprs, hq, -, -, hnames, hkept⟩ := (replacement_keeps_node fieldSum (.ref 1 .int64)
    rfl rfl).2 projected (.project (.scan hscan) hproject) hwell hmatch hfields
  obtain rfl : replaced = q := Except.ok.inj (hreplaced.symm.trans hq)
  exact ⟨scan, projected, replaced, hscan, hproject, hreplaced, hresult, hnames, hkept⟩

end Plan

end QueryPlan
