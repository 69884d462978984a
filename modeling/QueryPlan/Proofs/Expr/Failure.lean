import QueryPlan.Lowering.Scalar
import QueryPlan.Proofs.Plan.Node

/-!
# Expressions fail only with ordinary errors

Applying an operator checks its operands, and lowering an expression of a query applies operators to
lowered parts. Neither reports anything but a fault of the query.
-/

namespace QueryPlan

/-! ## Types of calls -/

namespace Expr

theorem yields_expectAll (accepted : Ty → Bool) (expected : String) (es : List Expr) :
    FailsOrdinarily (expectAll accepted expected es) := by
  induction es with
  | nil => exact Yields.ok trivial
  | cons e es ih => exact (yields_expect accepted expected e).bind fun _ _ _ => ih

theorem yields_expectString (e : Expr) : FailsOrdinarily e.expectString := by
  unfold expectString
  split
  · exact Yields.ok trivial
  · exact Yields.fail trivial

theorem yields_expectStringList (e : Expr) : FailsOrdinarily e.expectStringList :=
  (yields_require (by trivial)).mono fun _ _ => trivial

theorem yields_expectPath (e : Expr) : FailsOrdinarily e.expectPath := by
  unfold expectPath
  split
  · exact Yields.ok trivial
  · exact Yields.fail trivial

theorem yields_expectEdge (e : Expr) : FailsOrdinarily e.expectEdge := by
  unfold expectEdge
  split
  · exact Yields.ok trivial
  · exact Yields.fail trivial

theorem yields_expectKeys (es : List Expr) : FailsOrdinarily (expectKeys es) := by
  fun_induction expectKeys es with
  | case1 => exact Yields.ok trivial
  | case2 key => exact (yields_expectString key).bind fun _ _ _ => Yields.ok trivial
  | case3 key _ rest ih => exact (yields_expectString key).bind fun _ _ _ => ih

theorem yields_caseBranches (es : List Expr) : FailsOrdinarily (caseBranches es) := by
  fun_induction caseBranches es with
  | case1 => exact Yields.ok trivial
  | case2 otherwise => exact Yields.ok trivial
  | case3 condition value rest ih =>
      refine (yields_expect _ _ condition).bind fun _ _ _ => ?_
      exact ih.bind fun _ _ _ => Yields.ok trivial

end Expr

namespace Operator

variable {op : Operator} {operands : List Expr}

theorem yields_unary {rule : Expr → Except Error Ty} (h : ∀ a, FailsOrdinarily (rule a)) :
    FailsOrdinarily (op.unary operands rule) := by
  unfold unary
  split
  · exact h _
  · exact Yields.fail trivial

theorem yields_binary {rule : Expr → Expr → Except Error Ty}
    (h : ∀ a b, FailsOrdinarily (rule a b)) : FailsOrdinarily (op.binary operands rule) := by
  unfold binary
  split
  · exact h _ _
  · exact Yields.fail trivial

theorem yields_ternary {rule : Expr → Expr → Expr → Except Error Ty}
    (h : ∀ a b c, FailsOrdinarily (rule a b c)) : FailsOrdinarily (op.ternary operands rule) := by
  unfold ternary
  split
  · exact h _ _ _
  · exact Yields.fail trivial

/-- Two operands whose types are checked one after the other. -/
theorem yields_expectBoth {accepted : Ty → Bool} {expected : String} {a b : Expr} {ty : Ty} :
    FailsOrdinarily (do
      a.expect accepted expected
      b.expect accepted expected
      return ty) :=
  (yields_expect _ _ a).bind fun _ _ _ => (yields_expect _ _ b).bind fun _ _ _ => Yields.ok trivial

theorem yields_addType (a b : Expr) : FailsOrdinarily (addType a b) := by
  unfold addType
  split
  · exact Yields.ok trivial
  · split
    · exact Yields.ok trivial
    · exact yields_expectBoth

/-- A check followed by an answer. -/
theorem yields_then {α : Type} {check : Except Error α} {ty : Ty} (h : FailsOrdinarily check) :
    FailsOrdinarily (check >>= fun _ => pure ty) :=
  h.bind fun _ _ _ => Yields.ok trivial

theorem yields_resultType (op : Operator) (operands : List Expr) :
    FailsOrdinarily (op.resultType operands) := by
  have hlabels (a b : Expr) (ty : Ty) : FailsOrdinarily (do
      a.expect Ty.isLabelled "node"
      b.expectStringList
      return ty) :=
    (yields_expect _ _ a).bind fun _ _ _ => yields_then b.yields_expectStringList
  have hkey (a b : Expr) (expected : String) (ty : Ty) : FailsOrdinarily (do
      a.expect Ty.hasProperties expected
      let _ ← b.expectString
      return ty) :=
    (yields_expect _ _ a).bind fun _ _ _ => yields_then b.yields_expectString
  cases op with
  | eq | ne | lt | le | gt | ge => exact yields_binary fun _ _ => Yields.ok trivial
  | and | or | xor =>
      refine (yields_require (by trivial)).bind fun _ _ _ => ?_
      exact yields_then (Expr.yields_expectAll _ _ operands)
  | not => exact yields_unary fun a => yields_then (yields_expect _ _ a)
  | add => exact yields_binary yields_addType
  | sub | mul | div | mod | pow | like | regex => exact yields_binary fun a b => yields_expectBoth
  | neg => exact yields_unary fun a => yields_then (yields_expect _ _ a)
  | isNull | isNotNull => exact yields_unary fun _ => Yields.ok trivial
  | isIn => exact yields_binary fun _ b => yields_then (yields_expect _ _ b)
  | hasLabels | setLabels | removeLabels => exact yields_binary fun a b => hlabels a b _
  | extractProperty | removeProperty => exact yields_binary fun a b => hkey a b _ _
  | patternMatch =>
      refine yields_ternary fun a b c => ?_
      refine (yields_expect _ _ a).bind fun _ _ _ => ?_
      refine b.yields_expectPath.bind fun path _ _ => ?_
      refine c.yields_expectString.bind fun name _ _ => ?_
      split
      · exact Yields.ok trivial
      · exact Yields.fail trivial
  | adjustEdge =>
      refine yields_ternary fun a b c => ?_
      exact a.yields_expectEdge.bind fun _ _ _ => yields_expectBoth
  | setProperty => exact yields_ternary fun a b _ => hkey a b _ _
  | setProperties =>
      refine yields_ternary fun a b c => ?_
      refine (yields_expect _ _ a).bind fun _ _ _ => ?_
      refine (yields_expect _ _ b).bind fun _ _ _ => ?_
      exact yields_then (yields_expect _ _ c)
  | toList => exact yields_unary fun _ => Yields.ok trivial
  | makeList => exact Yields.ok trivial
  | makeMap =>
      refine (yields_require (by trivial)).bind fun _ _ _ => ?_
      exact yields_then (Expr.yields_expectKeys operands)
  | case =>
      refine (yields_require (by trivial)).bind fun _ _ _ => ?_
      exact (Expr.yields_caseBranches operands).bind fun _ _ _ => Yields.ok trivial
  | function name => exact Yields.ok trivial

end Operator

namespace Expr

theorem yields_call (op : Operator) (operands : List Expr) : FailsOrdinarily (call op operands) :=
  (Operator.yields_resultType op operands).bind fun _ _ _ => Yields.ok trivial

theorem yields_stringTest (test : StringTest) (subject part : Expr) :
    FailsOrdinarily (stringTest test subject part) := by
  unfold stringTest
  split
  · exact yields_call _ _
  · exact Yields.fail trivial

end Expr

/-! ## Lowering expressions -/

theorem Schema.yields_lookup (scope : Schema) (name : String) :
    FailsOrdinarily (scope.lookup name) := by
  unfold Schema.lookup
  split
  · exact Yields.ok trivial
  · exact Yields.fail trivial

theorem BinaryOp.yields_toExpr (op : BinaryOp) (a b : Expr) : FailsOrdinarily (op.toExpr a b) := by
  cases op with
  | startsWith | endsWith | contains => exact Expr.yields_stringTest _ _ _
  | _ => exact Expr.yields_call _ _

theorem yields_armCondition (input : Option Expr) (condition : Expr) :
    FailsOrdinarily (armCondition input condition) := by
  cases input with
  | none => exact Yields.ok trivial
  | some subject => exact Expr.yields_call _ _

namespace Expression

variable (scope : Schema)

-- The recursion is that of `toExpr`: one statement for an expression and one for each kind of list.
mutual

theorem yields_toExpr : ∀ e : Expression, FailsOrdinarily (e.toExpr scope)
  | literal l => Yields.ok trivial
  | var name => scope.yields_lookup name
  | parameter name => Yields.fail trivial
  | property name key => (scope.yields_lookup name).bind fun _ _ _ => Expr.yields_call _ _
  | hasLabels name labels => (scope.yields_lookup name).bind fun _ _ _ => Expr.yields_call _ _
  | binary left op right =>
    (yields_toExpr left).bind fun a _ _ => (yields_toExpr right).bind fun b _ _ =>
      op.yields_toExpr a b
  | unary op operand => (yields_toExpr operand).bind fun _ _ _ => Expr.yields_call _ _
  | call name args distinct => by
    unfold toExpr
    split
    · exact Yields.fail trivial
    · exact (yields_toExprs args).bind fun _ _ _ => Expr.yields_call _ _
  | countStar => Yields.fail trivial
  | list items => (yields_toExprs items).bind fun _ _ _ => Expr.yields_call _ _
  | map entries => (yields_entryExprs entries).bind fun _ _ _ => Expr.yields_call _ _
  | case input arms otherwise =>
    (yields_optionExpr input).bind fun subject _ _ =>
      (yields_armExprs subject arms).bind fun _ _ _ =>
        (yields_optionExpr otherwise).bind fun _ _ _ => Expr.yields_call _ _

theorem yields_toExprs : ∀ es : List Expression, FailsOrdinarily (toExprs scope es)
  | [] => Yields.ok trivial
  | e :: es =>
    (yields_toExpr e).bind fun _ _ _ => (yields_toExprs es).bind fun _ _ _ => Yields.ok trivial

theorem yields_entryExprs :
    ∀ entries : List (String × Expression), FailsOrdinarily (entryExprs scope entries)
  | [] => Yields.ok trivial
  | (_, e) :: rest =>
    (yields_toExpr e).bind fun _ _ _ => (yields_entryExprs rest).bind fun _ _ _ => Yields.ok trivial

theorem yields_armExprs (subject : Option Expr) :
    ∀ arms : List (Expression × Expression), FailsOrdinarily (armExprs scope subject arms)
  | [] => Yields.ok trivial
  | (condition, value) :: rest =>
    (yields_toExpr condition).bind fun c _ _ => (yields_armCondition subject c).bind fun _ _ _ =>
      (yields_toExpr value).bind fun _ _ _ =>
        (yields_armExprs subject rest).bind fun _ _ _ => Yields.ok trivial

theorem yields_optionExpr : ∀ e : Option Expression, FailsOrdinarily (optionExpr scope e)
  | none => Yields.ok trivial
  | some e => (yields_toExpr e).bind fun _ _ _ => Yields.ok trivial

end

end Expression

end QueryPlan
