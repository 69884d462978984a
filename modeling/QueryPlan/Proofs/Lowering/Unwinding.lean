import QueryPlan.Proofs.Draft.Outcome
import QueryPlan.Proofs.Expr.CommonTypes
import QueryPlan.Proofs.Lowering.Naming

/-!
# Unwinding

Expressions made of literals are read in two ways: as values and, like all others, as expressions
over a schema. Both ways give one type (`exists_toExpr_of_literalValue?`).

`UNWIND` takes the first way at the start of a query and the second over a plan. Either way the rows
have one field, of the type that the elements have. What is no list is unwound as a list of itself,
but for null: at the start of a query it is an empty list, and nothing is known of the elements.
-/

namespace QueryPlan

/-- The type of what a list is made of; anything else is a list of itself. -/
def Ty.unwound : Ty → Ty
  | list t => t
  | t => t

theorem Ty.list_unwound {t : Ty} (h : t.isList = true) : list t.unwound = t := by
  cases t with
  | list t => rfl
  | _ => cases h

theorem Ty.unwound_of_not_isList {t : Ty} (h : t.isList = false) : t.unwound = t := by
  cases t with
  | list t => cases h
  | _ => rfl

/-! ## Literals -/

theorem Expr.call_neg {x : Expr} (h : x.ty.isNumericLike = true) :
    Expr.call .neg [x] = .ok (.apply .neg [x] x.ty) := by
  simp [Expr.call, Operator.resultType, Operator.unary, Expr.expect, require, h]

theorem Expr.call_makeMap {xs : List Expr} (heven : xs.length % 2 = 0)
    (hkeys : Expr.expectKeys xs = .ok ()) :
    Expr.call .makeMap xs = .ok (.apply .makeMap xs .map) := by
  simp [Expr.call, Operator.resultType, require, heven, hkeys]

namespace Expression

/-- Only numbers are negated, and stay of their type. -/
theorem literalValue?_neg {operand : Expression} {v : Value}
    (h : (unary .neg operand).literalValue? = some v) :
    ∃ w, operand.literalValue? = some w ∧ w.ty.isNumericLike = true ∧ v.ty = w.ty := by
  unfold literalValue? at h
  split at h
  · next i hi =>
      split at h
      · cases h
      · cases h
        exact ⟨_, hi, rfl, rfl⟩
  · next x hx =>
      cases h
      exact ⟨_, hx, rfl, rfl⟩
  · cases h

variable (scope : Schema)

-- The recursion is that of `literalValue?`.
mutual

/-- **What has a literal value can be lowered over every scope, to an expression of its type.** -/
theorem exists_toExpr_of_literalValue? : ∀ {e : Expression} {v : Value},
    e.literalValue? = some v → ∃ x, e.toExpr scope = .ok x ∧ x.ty = v.ty
  | literal l, v, h => by
      cases h
      exact ⟨.ofValue l.value, rfl, rfl⟩
  | list items, v, h => by
      obtain ⟨vs, hvs, rfl⟩ := Option.map_eq_some_iff.mp h
      obtain ⟨xs, hxs, htypes⟩ := exists_toExprs_of_literalValues? hvs
      refine ⟨.apply .makeList xs (.list (.common (xs.map Expr.ty))), ?_, ?_⟩
      · rw [toExpr, hxs]
        rfl
      · rw [Value.ty, Value.types_eq_map, ← htypes]
        rfl
  | map entries, v, h => by
      obtain ⟨vs, hvs, rfl⟩ := Option.map_eq_some_iff.mp h
      obtain ⟨xs, hxs, heven, hkeys⟩ := exists_entryExprs_of_literalEntries? hvs
      refine ⟨.apply .makeMap xs .map, ?_, rfl⟩
      rw [toExpr, hxs, ok_bind, Expr.call_makeMap heven hkeys]
  | unary .neg operand, v, h => by
      obtain ⟨w, hw, hnumber, hty⟩ := literalValue?_neg h
      obtain ⟨x, hx, hxty⟩ := exists_toExpr_of_literalValue? hw
      refine ⟨.apply .neg [x] x.ty, ?_, hxty.trans hty.symm⟩
      rw [toExpr, hx, ok_bind]
      exact Expr.call_neg (hxty ▸ hnumber)

theorem exists_toExprs_of_literalValues? : ∀ {es : List Expression} {vs : List Value},
    literalValues? es = some vs →
      ∃ xs, toExprs scope es = .ok xs ∧ xs.map Expr.ty = vs.map Value.ty
  | [], vs, h => by
      cases h
      exact ⟨[], rfl, rfl⟩
  | e :: es, vs, h => by
      unfold literalValues? at h
      split at h
      · next v hv =>
          obtain ⟨rest, hrest, rfl⟩ := Option.map_eq_some_iff.mp h
          obtain ⟨x, hx, hty⟩ := exists_toExpr_of_literalValue? hv
          obtain ⟨xs, hxs, htypes⟩ := exists_toExprs_of_literalValues? hrest
          refine ⟨x :: xs, ?_, by rw [List.map_cons, List.map_cons, hty, htypes]⟩
          rw [toExprs, hx, hxs]
          rfl
      · cases h

theorem exists_entryExprs_of_literalEntries? :
    ∀ {entries : List (String × Expression)} {vs : List (String × Value)},
      literalEntries? entries = some vs →
        ∃ xs, entryExprs scope entries = .ok xs ∧ xs.length % 2 = 0 ∧ Expr.expectKeys xs = .ok ()
  | [], vs, h => ⟨[], rfl, rfl, rfl⟩
  | (key, e) :: entries, vs, h => by
      unfold literalEntries? at h
      split at h
      · next v hv =>
          obtain ⟨rest, hrest, rfl⟩ := Option.map_eq_some_iff.mp h
          obtain ⟨x, hx, -⟩ := exists_toExpr_of_literalValue? hv
          obtain ⟨xs, hxs, heven, hkeys⟩ := exists_entryExprs_of_literalEntries? hrest
          refine ⟨.ofString key :: x :: xs, ?_, ?_, hkeys⟩
          · rw [entryExprs, hx, hxs]
            rfl
          · rw [List.length_cons, List.length_cons]
            omega
      · cases h

end

end Expression

/-! ## Lists in plans -/

theorem Plan.unwind_list {input : Plan} {index : Nat} {asName : String} {field : Field} {t : Ty}
    (hfield : input.schema[index]? = some field) (hlist : field.ty = .list t) :
    unwind input index asName =
      .ok ⟨none, .unwind index asName, [input], .single asName t, input.model⟩ := by
  rw [unwind, hfield]
  dsimp only
  rw [hlist]
  exact build_over _ _ _

/-- One more field can be put behind those there are. -/
theorem Plan.exists_projectColumns_star {input : Plan} {y : Expr} (name : String)
    (hrefs : checkAll input.schema y.refs = .ok ()) :
    ∃ p, projectColumns input (starColumns input.schema ++ [⟨some name, y⟩]) = .ok p ∧
      p.schema = input.schema ++ [⟨name, y.ty⟩] := by
  refine ⟨_, projectColumns_eq_ok.mpr ⟨?_, rfl⟩, ?_⟩
  · rw [List.map_append, List.map_singleton, (Expr.fitsOver_of_checkAll hrefs).refs,
      List.append_nil, checkRefs_starColumns]
  · show Column.fields _ = _
    rw [Column.fields_append, fields_starColumns]
    rfl

theorem Expr.exists_ref_of_ref? {y : Expr} {index : Nat} (h : y.ref? = some index) :
    ∃ ty, y = .ref index ty := by
  cases y with
  | ref i ty =>
      cases h
      exact ⟨ty, rfl⟩
  | _ => cases h

/-- Anything can be made a list, which refers to what it was made of. -/
theorem Expr.exists_asList (x : Expr) :
    ∃ y, x.asList = .ok y ∧ y.ty = .list x.ty.unwound ∧ y.refs = x.refs := by
  cases hlist : x.ty.isList with
  | true => exact ⟨x, if_pos hlist, (Ty.list_unwound hlist).symm, rfl⟩
  | false =>
      refine ⟨.apply .toList [x] (.list x.ty), ?_, ?_, ?_⟩
      · simp [asList, call, Operator.resultType, Operator.unary, hlist]
      · rw [Ty.unwound_of_not_isList hlist]
        rfl
      · rw [refs, refsAll_singleton]

theorem Lowered.checkAll {scope : Schema} {names : List String} {xs : List Expr}
    (h : Lowered scope names xs) : checkAll scope (Expr.refsAll xs) = .ok () := by
  refine checkAll_eq_ok.mpr fun r hr => ?_
  obtain ⟨name, -, field, hlast, hty⟩ := exists_mem_of_forall₂ h.refs hr
  exact ⟨field, hlast.field, hty⟩

namespace UnwindClause

variable {c : UnwindClause}

/-- What can be lowered can be unwound. -/
theorem exists_over {input : Plan} {x : Expr} (h : c.expression.toExpr input.schema = .ok x) :
    ∃ q, c.over input = .ok q ∧ q.schema = [⟨c.asName, x.ty.unwound⟩] := by
  obtain ⟨y, hy, hty, hrefs⟩ := x.exists_asList
  have hcheck : checkAll input.schema y.refs = .ok () := by
    rw [hrefs, ← Expr.refsAll_singleton]
    exact (Expression.lowered_toExpr h).checkAll
  rw [UnwindClause.over, h, ok_bind, hy, ok_bind]
  cases href : y.ref? with
  | some index =>
      -- The list is a field, of the type that the reference has.
      obtain ⟨field, hfield, hfieldTy⟩ : ∃ field, input.schema[index]? = some field ∧
          field.ty = y.ty := by
        obtain ⟨ty, rfl⟩ := Expr.exists_ref_of_ref? href
        exact checkAll_eq_ok.mp hcheck (index, ty) (List.mem_singleton_self _)
      exact ⟨_, Plan.unwind_list hfield (hfieldTy.trans hty), rfl⟩
  | none =>
      obtain ⟨project, hproject, hschema⟩ := Plan.exists_projectColumns_star c.asName hcheck
      dsimp only
      rw [hproject, ok_bind]
      exact ⟨_, Plan.unwind_list (by rw [hschema, List.getElem?_concat_length]) hty, rfl⟩

/-- An unwound literal other than null. -/
theorem exists_standalone {v : Value} (hv : c.expression.literalValue? = some v)
    (hnull : v ≠ .null) :
    ∃ q, c.standalone = .ok q ∧ q.schema = [⟨c.asName, v.ty.unwound⟩] := by
  have hlist : v.asList.ty = .list v.ty.unwound := by
    cases v with
    | null => exact absurd rfl hnull
    | _ => rfl
  have hrows : Plan.values ⟨[], [], [[v.asList]], [c.asName]⟩ =
      .ok ⟨none, .values ⟨[], [], [[v.asList]], [c.asName]⟩, [], [⟨c.asName, v.asList.ty⟩],
        .graph⟩ := rfl
  rw [standalone, hv]
  dsimp only
  rw [hrows, ok_bind]
  exact ⟨_, Plan.unwind_list rfl hlist, rfl⟩

-- Null is an empty list at the start of a query, but a list of null over a plan.
example : (standalone ⟨.literal .null, "x", none⟩).toOption.map Plan.schema =
    some [⟨"x", .any⟩] := by decide

end UnwindClause

/-! ## The clause -/

namespace Drafting

variable {home : NamespaceId} {c : UnwindClause} {d : Draft}

theorem outcome_unwinding_over {top : Plan} {rest : List Plan} (h : d.stack = top :: rest) :
    outcome (clause home (.unwinding c)) d =
      c.over top >>= fun q => .ok ((), { d with stack := q :: rest }) := by
  simp [clause, unwindClause, replaceTop, topOf, h]

theorem outcome_unwinding_standalone (h : d.stack = []) :
    outcome (clause home (.unwinding c)) d =
      c.standalone >>= fun q => .ok ((), { d with stack := [q] }) := by
  simp [clause, unwindClause, h]

/-- Over a plan, what can be lowered can be unwound. -/
theorem exists_unwinding_over {top : Plan} {rest : List Plan} {x : Expr}
    (hstack : d.stack = top :: rest) (hx : c.expression.toExpr top.schema = .ok x) :
    ∃ q, clause home (.unwinding c) d = .ok () { d with stack := q :: rest } ∧
      q.schema = [⟨c.asName, x.ty.unwound⟩] := by
  obtain ⟨q, hq, hschema⟩ := UnwindClause.exists_over hx
  refine ⟨q, outcome_eq_ok.mp ?_, hschema⟩
  rw [outcome_unwinding_over hstack, hq, ok_bind]

/-- Over a plan, only what can be lowered can be unwound. -/
theorem exists_toExpr_of_unwinding {top : Plan} {rest : List Plan} {after : Draft}
    (hstack : d.stack = top :: rest) (h : clause home (.unwinding c) d = .ok () after) :
    ∃ x, c.expression.toExpr top.schema = .ok x := by
  rw [← outcome_eq_ok, outcome_unwinding_over hstack] at h
  obtain ⟨q, hq, -⟩ := bind_eq_ok.mp h
  obtain ⟨x, hx, -⟩ := bind_eq_ok.mp hq
  exact ⟨x, hx⟩

/-- At the start of a query, any literal but null can be unwound. -/
theorem exists_unwinding_standalone {v : Value} (hstack : d.stack = [])
    (hv : c.expression.literalValue? = some v) (hnull : v ≠ .null) :
    ∃ p, clause home (.unwinding c) d = .ok () { d with stack := [p] } ∧
      p.schema = [⟨c.asName, v.ty.unwound⟩] := by
  obtain ⟨p, hp, hschema⟩ := UnwindClause.exists_standalone hv hnull
  refine ⟨p, outcome_eq_ok.mp ?_, hschema⟩
  rw [outcome_unwinding_standalone hstack, hp, ok_bind]

end Drafting

/-- **Both readings of a literal give one type, and unwinding follows the types.** Over a plan,
`UNWIND` succeeds exactly if its expression can be lowered over the schema of that plan, and leaves
the one field that it names, of the type of the elements. At the start of a query, a literal other
than null leaves the same field as over any plan. -/
theorem unwinding_follows_types (e : Expression) (name : String) (span : Option Span)
    (home : NamespaceId) :
    (∀ v, e.literalValue? = some v → ∀ scope, ∃ x, e.toExpr scope = .ok x ∧ x.ty = v.ty) ∧
    (∀ (d : Draft) (top : Plan) (rest : List Plan), d.stack = top :: rest →
      ((∃ after, Drafting.clause home (.unwinding ⟨e, name, span⟩) d = .ok () after) ↔
        ∃ x, e.toExpr top.schema = .ok x) ∧
      ∀ x, e.toExpr top.schema = .ok x →
        ∃ q, Drafting.clause home (.unwinding ⟨e, name, span⟩) d =
            .ok () { d with stack := q :: rest } ∧
          q.schema = [⟨name, x.ty.unwound⟩]) ∧
    ∀ v, e.literalValue? = some v → v ≠ .null →
      ∀ (start d : Draft) (top : Plan) (rest : List Plan), start.stack = [] →
        d.stack = top :: rest →
        ∃ p q, Drafting.clause home (.unwinding ⟨e, name, span⟩) start =
            .ok () { start with stack := [p] } ∧
          Drafting.clause home (.unwinding ⟨e, name, span⟩) d =
            .ok () { d with stack := q :: rest } ∧
          p.schema = [⟨name, v.ty.unwound⟩] ∧ q.schema = p.schema := by
  refine ⟨fun v hv scope => e.exists_toExpr_of_literalValue? scope hv, ?_, ?_⟩
  · intro d top rest hstack
    refine ⟨⟨?_, ?_⟩, fun x hx => Drafting.exists_unwinding_over hstack hx⟩
    · rintro ⟨after, hafter⟩
      exact Drafting.exists_toExpr_of_unwinding hstack hafter
    · rintro ⟨x, hx⟩
      obtain ⟨q, hq, -⟩ := Drafting.exists_unwinding_over (c := ⟨e, name, span⟩) hstack hx
      exact ⟨_, hq⟩
  · intro v hv hnull start d top rest hstart hstack
    obtain ⟨p, hp, hpschema⟩ :=
      Drafting.exists_unwinding_standalone (c := ⟨e, name, span⟩) hstart hv hnull
    obtain ⟨x, hx, hty⟩ := e.exists_toExpr_of_literalValue? top.schema hv
    obtain ⟨q, hq, hqschema⟩ := Drafting.exists_unwinding_over (c := ⟨e, name, span⟩) hstack hx
    refine ⟨p, q, hp, hq, hpschema, ?_⟩
    rw [hqschema, hty, hpschema]

end QueryPlan
