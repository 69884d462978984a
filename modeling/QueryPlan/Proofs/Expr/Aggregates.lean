import QueryPlan.Plan.Basic
import QueryPlan.Proofs.Expr.Scoping

/-!
# Aggregates have no scalar form

An aggregate is recognised in three places: by the name of a function, which may be read as that of
an aggregate function; by a search through an expression; and by lowering, which refuses it. The
three agree. The search finds every aggregate there is, an expression in which it finds one cannot
be lowered, and what is lowered calls no function under the name of an aggregate, in any part.
-/

namespace QueryPlan

/-- The names of the aggregate functions. -/
def aggregateNames : List String := ["count", "sum", "avg", "min", "max", "collect"]

/-- **The two tables of names agree.** -/
theorem isAggregateName_eq_isSome (name : String) :
    isAggregateName name = (AggregateFunction.ofName? name).isSome := by
  unfold isAggregateName AggregateFunction.ofName?
  split
  case h_7 hcount hsum havg hmin hmax hcollect =>
    have hnone : Text.lower name ∉ aggregateNames := by
      simpa [aggregateNames] using ⟨hcount, hsum, havg, hmin, hmax, hcollect⟩
    simpa [aggregateNames] using hnone
  all_goals
    next hname =>
      rw [hname]
      rfl

/-! ## The search -/

namespace Expression

/-- The expression itself is an aggregate. -/
def isAggregate : Expression → Bool
  | countStar => true
  | call name _ _ => isAggregateName name
  | _ => false

/-- An aggregate stands somewhere in the expression. -/
inductive HasAggregate : Expression → Prop
  | self {e : Expression} : e.isAggregate = true → HasAggregate e
  | part {e whole : Expression} : e ∈ whole.parts → HasAggregate e → HasAggregate whole

theorem sizeOf_lt_of_mem_parts {e whole : Expression} (h : e ∈ whole.parts) :
    sizeOf e < sizeOf whole := by
  cases whole with
  | binary left op right =>
      rcases List.mem_pair.mp h with rfl | rfl
      · simp only [binary.sizeOf_spec]
        omega
      · simp only [binary.sizeOf_spec]
        omega
  | unary op operand =>
      obtain rfl := List.mem_singleton.mp h
      simp only [unary.sizeOf_spec]
      omega
  | call name args distinct =>
      have hlt : sizeOf e < sizeOf args := List.sizeOf_lt_of_mem h
      simp only [call.sizeOf_spec]
      omega
  | list items =>
      have hlt : sizeOf e < sizeOf items := List.sizeOf_lt_of_mem h
      simp only [list.sizeOf_spec]
      omega
  | map entries =>
      obtain ⟨⟨key, e⟩, hmem, rfl⟩ := List.mem_map.mp h
      have hlt := List.sizeOf_lt_of_mem hmem
      simp only [map.sizeOf_spec, Prod.mk.sizeOf_spec] at hlt ⊢
      omega
  | case input arms otherwise =>
      simp only [case.sizeOf_spec]
      rcases List.mem_append.mp h with hcase | hlast
      · rcases List.mem_append.mp hcase with hinput | harm
        · obtain rfl := Option.mem_toList.mp hinput
          simp only [Option.some.sizeOf_spec]
          omega
        · obtain ⟨⟨condition, value⟩, hmem, hpart⟩ := List.mem_flatMap.mp harm
          have hlt := List.sizeOf_lt_of_mem hmem
          simp only [Prod.mk.sizeOf_spec] at hlt
          rcases List.mem_pair.mp hpart with rfl | rfl
          · omega
          · omega
      · obtain rfl := Option.mem_toList.mp hlast
        simp only [Option.some.sizeOf_spec]
        omega
  | _ => cases h

theorem anyAggregate_eq (es : List Expression) : anyAggregate es = es.any containsAggregate := by
  induction es with
  | nil => rfl
  | cons e es ih => rw [anyAggregate, ih, List.any_cons]

theorem anyEntryAggregate_eq (entries : List (String × Expression)) :
    anyEntryAggregate entries = (entries.map Prod.snd).any containsAggregate := by
  induction entries with
  | nil => rfl
  | cons entry entries ih => rw [anyEntryAggregate, ih, List.map_cons, List.any_cons]

theorem anyArmAggregate_eq (arms : List (Expression × Expression)) :
    anyArmAggregate arms =
      (arms.flatMap fun (condition, value) => [condition, value]).any containsAggregate := by
  induction arms with
  | nil => rfl
  | cons arm arms ih => simp [anyArmAggregate, ih, Bool.or_assoc]

theorem optionAggregate_eq (e : Option Expression) :
    optionAggregate e = e.toList.any containsAggregate := by
  cases e with
  | none => rfl
  | some e => simp [optionAggregate]

/-- The search looks at an expression and at all its parts. -/
theorem containsAggregate_eq (e : Expression) :
    e.containsAggregate = (e.isAggregate || e.parts.any containsAggregate) := by
  cases e with
  | binary left op right => simp [containsAggregate, isAggregate, parts]
  | unary op operand => simp [containsAggregate, isAggregate, parts]
  | call name args distinct => rw [containsAggregate, anyAggregate_eq, isAggregate, parts]
  | list items => exact anyAggregate_eq items
  | map entries => exact anyEntryAggregate_eq entries
  | case input arms otherwise =>
      rw [containsAggregate, optionAggregate_eq, anyArmAggregate_eq, optionAggregate_eq,
        ← List.any_append, ← List.any_append]
      rfl
  | _ => rfl

/-- **The search finds every aggregate**, and nothing else. -/
theorem containsAggregate_iff {e : Expression} :
    e.containsAggregate = true ↔ e.HasAggregate := by
  constructor
  · intro h
    rw [containsAggregate_eq, Bool.or_eq_true, List.any_eq_true] at h
    rcases h with hself | ⟨part, hmem, hpart⟩
    · exact .self hself
    · have hsmaller := sizeOf_lt_of_mem_parts hmem
      exact .part hmem (containsAggregate_iff.mp hpart)
  · intro h
    induction h with
    | self hself => rw [containsAggregate_eq, hself, Bool.true_or]
    | part hmem _ ih =>
        rw [containsAggregate_eq, Bool.or_eq_true, List.any_eq_true]
        exact Or.inr ⟨_, hmem, ih⟩
termination_by sizeOf e

end Expression

/-! ## Lowered expressions -/

/-- The operator applies no function under the name of an aggregate. -/
def Operator.IsScalar : Operator → Prop
  | function name => name ∉ aggregateNames
  | _ => True

namespace Expr

/-- No part applies a function under the name of an aggregate. -/
def AggregateFree (e : Expr) : Prop :=
  ∀ name operands ty, (Expr.apply (.function name) operands ty).IsPartOf e → name ∉ aggregateNames

namespace AggregateFree

variable {op : Operator} {operands : List Expr} {e a b : Expr}

theorem ref (index : Nat) (ty : Ty) : (Expr.ref index ty).AggregateFree := by
  intro name operands ty hpart
  cases hpart

theorem ofValue (v : Value) : (Expr.ofValue v).AggregateFree := by
  intro name operands ty hpart
  cases hpart

theorem apply {ty : Ty} (hop : op.IsScalar) (h : ∀ o ∈ operands, o.AggregateFree) :
    (Expr.apply op operands ty).AggregateFree := by
  intro name args ty hpart
  cases hpart with
  | self => exact hop
  | operand hpart ho => exact h _ ho name args ty hpart

theorem call (h : Expr.call op operands = .ok e) (hop : op.IsScalar)
    (hoperands : ∀ o ∈ operands, o.AggregateFree) : e.AggregateFree := by
  obtain ⟨ty, -, h⟩ := bind_eq_ok.mp h
  cases h
  exact .apply hop hoperands

theorem call_pair (h : Expr.call op [a, b] = .ok e) (hop : op.IsScalar) (ha : a.AggregateFree)
    (hb : b.AggregateFree) : e.AggregateFree :=
  .call h hop (List.forall_mem_cons.mpr ⟨ha, List.forall_mem_singleton.mpr hb⟩)

end AggregateFree

end Expr

theorem Schema.aggregateFree_lookup {scope : Schema} {name : String} {x : Expr}
    (h : scope.lookup name = .ok x) : x.AggregateFree := by
  obtain ⟨i, f, -, rfl⟩ := Schema.lookup_eq_ok.mp h
  exact .ref i f.ty

theorem BinaryOp.aggregateFree_toExpr {op : BinaryOp} {a b x : Expr} (ha : a.AggregateFree)
    (hb : b.AggregateFree) (h : op.toExpr a b = .ok x) : x.AggregateFree := by
  have htest : ∀ {test : Expr.StringTest}, Expr.stringTest test a b = .ok x → x.AggregateFree := by
    intro test h
    unfold Expr.stringTest at h
    split at h
    · exact .call_pair h trivial ha (.ofValue _)
    · cases h
  cases op with
  | startsWith | endsWith | contains => exact htest h
  | _ => exact .call_pair h trivial ha hb

theorem aggregateFree_armCondition {subject : Option Expr} {condition x : Expr}
    (hsubject : ∀ s ∈ subject, s.AggregateFree) (hcondition : condition.AggregateFree)
    (h : armCondition subject condition = .ok x) : x.AggregateFree := by
  cases subject with
  | none =>
      cases h
      exact hcondition
  | some subject => exact .call_pair h trivial (hsubject subject rfl) hcondition

/-- The operator of a named function is scalar if the name is not that of an aggregate. -/
theorem Operator.isScalar_named {name : String} (h : isAggregateName name = false) :
    (Operator.named name).IsScalar := by
  intro hmem
  have hcontains : isAggregateName name = true := List.contains_iff_mem.mpr hmem
  rw [hcontains] at h
  cases h

namespace Expression

variable {scope : Schema}

-- The recursion is that of `toExpr`. What is searched and what is lowered go side by side.
mutual

theorem scalar_of_toExpr : ∀ {e : Expression} {x : Expr}, e.toExpr scope = .ok x →
    e.containsAggregate = false ∧ x.AggregateFree
  | literal l, x, h => by
      cases h
      exact ⟨rfl, .ofValue l.value⟩
  | var name, x, h => ⟨rfl, Schema.aggregateFree_lookup h⟩
  | parameter name, x, h => by cases h
  | property name key, x, h => by
      obtain ⟨target, htarget, h⟩ := bind_eq_ok.mp h
      exact ⟨rfl, .call_pair h trivial (Schema.aggregateFree_lookup htarget) (.ofValue _)⟩
  | hasLabels name labels, x, h => by
      obtain ⟨target, htarget, h⟩ := bind_eq_ok.mp h
      exact ⟨rfl, .call_pair h trivial (Schema.aggregateFree_lookup htarget) (.ofValue _)⟩
  | binary left op right, x, h => by
      obtain ⟨a, ha, h⟩ := bind_eq_ok.mp h
      obtain ⟨b, hb, h⟩ := bind_eq_ok.mp h
      obtain ⟨hleft, ha⟩ := scalar_of_toExpr ha
      obtain ⟨hright, hb⟩ := scalar_of_toExpr hb
      refine ⟨?_, BinaryOp.aggregateFree_toExpr ha hb h⟩
      rw [containsAggregate, hleft, hright, Bool.or_false]
  | unary op operand, x, h => by
      obtain ⟨a, ha, h⟩ := bind_eq_ok.mp h
      obtain ⟨hoperand, ha⟩ := scalar_of_toExpr ha
      have hop : op.toOperator.IsScalar := by cases op <;> trivial
      refine ⟨?_, .call h hop (List.forall_mem_singleton.mpr ha)⟩
      rw [containsAggregate, hoperand]
  | call name args distinct, x, h => by
      unfold toExpr at h
      split at h
      · cases h
      · next hname =>
          rw [Bool.not_eq_true] at hname
          obtain ⟨operands, hoperands, h⟩ := bind_eq_ok.mp h
          obtain ⟨hargs, hoperands⟩ := scalar_of_toExprs hoperands
          refine ⟨?_, .call h (Operator.isScalar_named hname) hoperands⟩
          rw [containsAggregate, hname, hargs, Bool.or_false]
  | countStar, x, h => by cases h
  | list items, x, h => by
      obtain ⟨operands, hoperands, h⟩ := bind_eq_ok.mp h
      obtain ⟨hitems, hoperands⟩ := scalar_of_toExprs hoperands
      refine ⟨?_, .call h trivial hoperands⟩
      rw [containsAggregate, hitems]
  | map entries, x, h => by
      obtain ⟨operands, hoperands, h⟩ := bind_eq_ok.mp h
      obtain ⟨hentries, hoperands⟩ := scalar_of_entryExprs hoperands
      refine ⟨?_, .call h trivial hoperands⟩
      rw [containsAggregate, hentries]
  | case input arms otherwise, x, h => by
      obtain ⟨subject, hsubject, h⟩ := bind_eq_ok.mp h
      obtain ⟨operands, hoperands, h⟩ := bind_eq_ok.mp h
      obtain ⟨last, hlast, h⟩ := bind_eq_ok.mp h
      obtain ⟨hinput, hsubject⟩ := scalar_of_optionExpr hsubject
      obtain ⟨harms, hoperands⟩ := scalar_of_armExprs hsubject hoperands
      obtain ⟨hotherwise, hlast⟩ := scalar_of_optionExpr hlast
      refine ⟨?_, .call h trivial (List.forall_mem_append.mpr ⟨hoperands, ?_⟩)⟩
      · rw [containsAggregate, hinput, harms, hotherwise, Bool.or_false, Bool.or_false]
      · exact fun o ho => hlast o (Option.mem_toList.mp ho)

theorem scalar_of_toExprs : ∀ {es : List Expression} {xs : List Expr}, toExprs scope es = .ok xs →
    anyAggregate es = false ∧ ∀ x ∈ xs, x.AggregateFree
  | [], xs, h => by
      cases h
      exact ⟨rfl, List.forall_mem_nil _⟩
  | e :: es, xs, h => by
      obtain ⟨first, hfirst, h⟩ := bind_eq_ok.mp h
      obtain ⟨rest, hrest, h⟩ := bind_eq_ok.mp h
      cases h
      obtain ⟨he, hfirst⟩ := scalar_of_toExpr hfirst
      obtain ⟨hes, hrest⟩ := scalar_of_toExprs hrest
      refine ⟨?_, List.forall_mem_cons.mpr ⟨hfirst, hrest⟩⟩
      rw [anyAggregate, he, hes, Bool.or_false]

theorem scalar_of_entryExprs : ∀ {entries : List (String × Expression)} {xs : List Expr},
    entryExprs scope entries = .ok xs →
      anyEntryAggregate entries = false ∧ ∀ x ∈ xs, x.AggregateFree
  | [], xs, h => by
      cases h
      exact ⟨rfl, List.forall_mem_nil _⟩
  | (key, e) :: rest, xs, h => by
      obtain ⟨first, hfirst, h⟩ := bind_eq_ok.mp h
      obtain ⟨others, hothers, h⟩ := bind_eq_ok.mp h
      cases h
      obtain ⟨he, hfirst⟩ := scalar_of_toExpr hfirst
      obtain ⟨hrest, hothers⟩ := scalar_of_entryExprs hothers
      refine ⟨?_, List.forall_mem_cons.mpr ⟨.ofValue _, List.forall_mem_cons.mpr ⟨hfirst, hothers⟩⟩⟩
      rw [anyEntryAggregate, he, hrest, Bool.or_false]

theorem scalar_of_armExprs {subject : Option Expr} (hsubject : ∀ s ∈ subject, s.AggregateFree) :
    ∀ {arms : List (Expression × Expression)} {xs : List Expr},
      armExprs scope subject arms = .ok xs →
        anyArmAggregate arms = false ∧ ∀ x ∈ xs, x.AggregateFree
  | [], xs, h => by
      cases h
      exact ⟨rfl, List.forall_mem_nil _⟩
  | (condition, value) :: rest, xs, h => by
      obtain ⟨c, hc, h⟩ := bind_eq_ok.mp h
      obtain ⟨tested, htested, h⟩ := bind_eq_ok.mp h
      obtain ⟨v, hv, h⟩ := bind_eq_ok.mp h
      obtain ⟨others, hothers, h⟩ := bind_eq_ok.mp h
      cases h
      obtain ⟨hcondition, hc⟩ := scalar_of_toExpr hc
      obtain ⟨hvalue, hv⟩ := scalar_of_toExpr hv
      obtain ⟨hrest, hothers⟩ := scalar_of_armExprs hsubject hothers
      have htested := aggregateFree_armCondition hsubject hc htested
      refine ⟨?_, List.forall_mem_cons.mpr ⟨htested, List.forall_mem_cons.mpr ⟨hv, hothers⟩⟩⟩
      rw [anyArmAggregate, hcondition, hvalue, hrest]
      rfl

theorem scalar_of_optionExpr : ∀ {e : Option Expression} {x : Option Expr},
    optionExpr scope e = .ok x → optionAggregate e = false ∧ ∀ y ∈ x, y.AggregateFree
  | none, x, h => by
      cases h
      exact ⟨rfl, nofun⟩
  | some e, x, h => by
      obtain ⟨first, hfirst, h⟩ := bind_eq_ok.mp h
      cases h
      obtain ⟨he, hfirst⟩ := scalar_of_toExpr hfirst
      refine ⟨?_, fun y hy => ?_⟩
      · rw [optionAggregate, he]
      · cases hy
        exact hfirst

end

theorem aggregateFree_toExpr {e : Expression} {x : Expr} (h : e.toExpr scope = .ok x) :
    x.AggregateFree := (scalar_of_toExpr h).2

/-- **An aggregate anywhere in an expression makes lowering fail.** -/
theorem toExpr_of_containsAggregate {e : Expression} (h : e.containsAggregate = true) :
    ∃ error, e.toExpr scope = .error error := by
  cases hx : e.toExpr scope with
  | error error => exact ⟨error, rfl⟩
  | ok x =>
      rw [(scalar_of_toExpr hx).1] at h
      cases h

end Expression

end QueryPlan
