import QueryPlan.Expr.Typing

/-!
# Substitution that shares

A substitution offers every subexpression, outermost first, to a function that may put another in
its place. It builds a call anew only if an operand changed, and says of each subexpression whether
it is kept as it is. A replacement equal to what it replaces counts as no change.
-/

namespace QueryPlan.Expr

/-- What became of an expression. -/
inductive Change
  /-- It is the very expression given. -/
  | kept
  /-- Another expression stands in its place. -/
  | replaced (other : Expr)
  /-- A call, built again over operands some of which changed. -/
  | rebuilt (result : Expr) (operands : List Change)

namespace Change

def isKept : Change → Bool
  | kept => true
  | _ => false

/-- The expression after the change. -/
def result (e : Expr) : Change → Expr
  | kept => e
  | replaced r => r
  | rebuilt r _ => r

/-- The operands after the change, one change for each. -/
def results : List Expr → List Change → List Expr
  | e :: es, c :: cs => c.result e :: results es cs
  | _, _ => []

/-- For each operand of the expression and of its result, whether it is the very same. -/
def keptOperands (e : Expr) : Change → List Bool
  | kept => e.operands.map fun _ => true
  | replaced r => (e.operands.zip r.operands).map fun _ => false
  | rebuilt _ changes => changes.map isKept

end Change

/-- A replacement for `e`, unless it equals `e`. -/
def replaceBy (e r : Expr) : Change := if r == e then .kept else .replaced r

mutual

/-- Puts `f e` in the place of each subexpression `e` for which there is one. -/
def substitute (f : Expr → Option Expr) : Expr → Except Error Change
  | literal value ty =>
    match f (literal value ty) with
    | some r => .ok (replaceBy (literal value ty) r)
    | none => .ok .kept
  | ref index ty =>
    match f (ref index ty) with
    | some r => .ok (replaceBy (ref index ty) r)
    | none => .ok .kept
  | apply op operands ty =>
    match f (apply op operands ty) with
    | some r => .ok (replaceBy (apply op operands ty) r)
    | none => do
      let changes ← substituteAll f operands
      if changes.all Change.isKept then return .kept
      else return .rebuilt (← call op (Change.results operands changes)) changes

def substituteAll (f : Expr → Option Expr) : List Expr → Except Error (List Change)
  | [] => .ok []
  | e :: es => do
    let c ← substitute f e
    return c :: (← substituteAll f es)

end

/-- Puts `replacement` in the place of each subexpression equal to `target`. -/
def replace (target replacement : Expr) (e : Expr) : Except Error Change :=
  substitute (fun s => if s == target then some replacement else none) e

/-- Numbers references anew: field `i` becomes field `mapping[i]`. -/
def renumber (mapping : List Nat) : Expr → Option Expr
  | ref index ty => mapping[index]?.map (ref · ty)
  | _ => none

/-- Numbers all references anew; of those without a new number the last is reported. -/
def remap (mapping : List Nat) (e : Expr) : Except Error Change := do
  let c ← substitute (renumber mapping) e
  match (e.refs.filter fun (i, _) => mapping.length ≤ i).getLast? with
  | some (i, _) => throw (.invalidPlan s!"input ${i} has no mapping")
  | none => return c

end QueryPlan.Expr
