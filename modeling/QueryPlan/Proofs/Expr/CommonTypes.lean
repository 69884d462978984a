import QueryPlan.Expr.Typing
import QueryPlan.Proofs.Outcome
import QueryPlan.Proofs.Ty.Order

/-!
# Common types of lists and branches

Four places give several types one: the elements of a list value, the operands of a list, the
branches of a case, and the arguments of `coalesce`. All of them take the least type above, so that
only the types that occur matter: elements and branches may come in another order, and more than
once. In a value this holds at every depth.
-/

namespace QueryPlan

namespace Value

theorem types_eq_map (vs : List Value) : types vs = vs.map ty := by
  induction vs with
  | nil => rfl
  | cons v vs ih => rw [types, ih, List.map_cons]

/-- The lists in a value may have their elements in another order, and more or less often. -/
inductive Rearranged : Value → Value → Prop
  | members {as bs : List Value} : SameMembers as bs → Rearranged (.list as) (.list bs)
  | within {v w : Value} (before after : List Value) : Rearranged v w →
      Rearranged (.list (before ++ v :: after)) (.list (before ++ w :: after))
  | trans {u v w : Value} : Rearranged u v → Rearranged v w → Rearranged u w

theorem Rearranged.ty_eq {v w : Value} (h : Rearranged v w) : v.ty = w.ty := by
  induction h with
  | members h => rw [ty, ty, types_eq_map, types_eq_map, Ty.common_congr (h.map ty)]
  | within before after _ ih =>
      simp only [ty, types_eq_map, List.map_append, List.map_cons, ih]
  | trans _ _ ihuv ihvw => exact ihuv.trans ihvw

end Value

namespace Expr

/-- The conditions among the operands of a case. -/
def conditions : List Expr → List Expr
  | [] | [_] => []
  | condition :: _ :: rest => condition :: conditions rest

/-- The values among the operands of a case, the one for all other cases included. -/
def branches : List Expr → List Expr
  | [] => []
  | [otherwise] => [otherwise]
  | _ :: value :: rest => value :: branches rest

theorem caseBranches_eq_ok {operands : List Expr} {types : List Ty} :
    caseBranches operands = .ok types ↔
      (∀ c ∈ conditions operands, c.ty.isBooleanLike = true) ∧
        types = (branches operands).map ty := by
  fun_induction caseBranches operands generalizing types with
  | case1 =>
      rw [Except.ok.injEq, conditions, branches, and_iff_right (List.forall_mem_nil _)]
      exact eq_comm
  | case2 otherwise =>
      rw [Except.ok.injEq, conditions, branches, and_iff_right (List.forall_mem_nil _)]
      exact eq_comm
  | case3 condition value rest ih =>
      simp only [bind_eq_ok, expect, require_eq_ok, conditions, branches, List.forall_mem_cons,
        List.map_cons, ih]
      constructor
      · rintro ⟨-, hcondition, _, ⟨hrest, rfl⟩, h⟩
        cases h
        exact ⟨⟨hcondition, hrest⟩, rfl⟩
      · rintro ⟨⟨hcondition, hrest⟩, rfl⟩
        exact ⟨(), hcondition, _, ⟨hrest, rfl⟩, rfl⟩

theorem conditions_eq_nil_iff {operands : List Expr} :
    conditions operands = [] ↔ operands.length < 2 := by
  fun_cases conditions operands with
  | case1 => simp
  | case2 otherwise => simp
  | case3 condition value rest => simp

end Expr

namespace Operator

open QueryPlan.Expr (conditions branches)

/-- A case has a type if it has an arm and all its conditions are booleans, and this is the common
type of its branches. -/
theorem resultType_case_eq_ok {operands : List Expr} {t : Ty} :
    case.resultType operands = .ok t ↔
      conditions operands ≠ [] ∧ (∀ c ∈ conditions operands, c.ty.isBooleanLike = true) ∧
        t = .common ((branches operands).map Expr.ty) := by
  have hlength : 2 ≤ operands.length ↔ conditions operands ≠ [] := by
    rw [ne_eq, Expr.conditions_eq_nil_iff, Nat.not_lt]
  show (require _ _ >>= _) = _ ↔ _
  simp only [bind_eq_ok, require_eq_ok, decide_eq_true_eq, hlength, Expr.caseBranches_eq_ok]
  constructor
  · rintro ⟨-, harms, _, ⟨hconditions, rfl⟩, h⟩
    cases h
    exact ⟨harms, hconditions, rfl⟩
  · rintro ⟨harms, hconditions, rfl⟩
    exact ⟨(), harms, _, ⟨hconditions, rfl⟩, rfl⟩

/-- A case may have its conditions and its branches in another order, and more or less often. -/
theorem resultType_case_congr {os ps : List Expr}
    (hconditions : SameMembers ((conditions os).map Expr.ty) ((conditions ps).map Expr.ty))
    (hbranches : SameMembers ((branches os).map Expr.ty) ((branches ps).map Expr.ty)) {t : Ty} :
    case.resultType os = .ok t ↔ case.resultType ps = .ok t := by
  have hboolean (operands : List Expr) :
      (∀ c ∈ conditions operands, c.ty.isBooleanLike = true) ↔
        ∀ u ∈ (conditions operands).map Expr.ty, u.isBooleanLike = true := by
    rw [List.forall_mem_map]
  have harms : conditions os = [] ↔ conditions ps = [] := by
    rw [← List.map_eq_nil_iff, hconditions.eq_nil_iff, List.map_eq_nil_iff]
  rw [resultType_case_eq_ok, resultType_case_eq_ok, hboolean os, hboolean ps, ne_eq, harms,
    Ty.common_congr hbranches]
  exact and_congr_right fun _ => and_congr_left fun _ => forall_congr' fun u => by
    rw [hconditions u]

end Operator

/-- **Unification is a join.** In the order of types, two types unify to their least upper bound. So
unification is associative, commutative and idempotent; and the type of a value, of a list made from
operands, of a call of `coalesce` and of a case does not change if elements, operands, arguments,
or conditions and branches come in another order or are repeated. -/
theorem Ty.unify_is_join :
    (∀ a b : Ty, IsLUB {a, b} (a.unify b)) ∧
    (∀ a b c : Ty, (a.unify b).unify c = a.unify (b.unify c)) ∧
    (∀ a b : Ty, a.unify b = b.unify a) ∧
    (∀ a : Ty, a.unify a = a) ∧
    (∀ v w : Value, v.Rearranged w → v.ty = w.ty) ∧
    (∀ os ps : List Expr, SameMembers (os.map Expr.ty) (ps.map Expr.ty) →
      Operator.makeList.resultType os = Operator.makeList.resultType ps ∧
      (Operator.function "coalesce").resultType os =
        (Operator.function "coalesce").resultType ps) ∧
    ∀ os ps : List Expr,
      SameMembers ((Expr.conditions os).map Expr.ty) ((Expr.conditions ps).map Expr.ty) →
      SameMembers ((Expr.branches os).map Expr.ty) ((Expr.branches ps).map Expr.ty) →
      ∀ t, Operator.case.resultType os = .ok t ↔ Operator.case.resultType ps = .ok t := by
  refine ⟨isLUB_unify, sup_assoc, unify_comm, sup_idem, fun v w h => h.ty_eq, ?_, ?_⟩
  · intro os ps h
    have hcommon := common_congr h
    exact ⟨congrArg (Except.ok ∘ list) hcommon, congrArg Except.ok hcommon⟩
  · intro os ps hconditions hbranches t
    exact Operator.resultType_case_congr hconditions hbranches

end QueryPlan
