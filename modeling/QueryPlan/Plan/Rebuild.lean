import QueryPlan.Expr.Substitute
import QueryPlan.Plan.Build

/-!
# Making plans again

A node can be made again from its payload over other inputs or with other expressions. All checks
run again; a node for which nothing changes is returned as it is. A plan is valid if each of its
nodes, made again, has the same schema and fingerprint.
-/

namespace QueryPlan

/-- The number of inputs an operator other than `transform` takes. -/
def Op.arity : Op → Nat
  | scan _ | values _ | call _ => 0
  | _ => 1

namespace Plan

/-- Makes a node from its payload. The schema matters to a change of model only. -/
def rebuild (op : Op) (inputs : List Plan) (schema : Schema) : Except Error Plan :=
  match op, inputs with
  | .transform c, inputs => transform inputs schema c
  | .scan entity, [] => scan entity
  | .filter predicate, [input] => filter input predicate
  | .project columns, [input] => projectColumns input columns
  | .bind bindings, [input] =>
    patternMatch input (bindings.map Binding.expr) (bindings.map Binding.name)
  | .aggregate keys calls, [input] => aggregate input keys calls
  | .modify entity write targets, [input] =>
    modify entity input write (targets.map Binding.name) (targets.map Binding.expr)
  | .unwind index asName, [input] => unwind input index asName
  | .values v, [] => values v
  | .call c, [] => call c
  | .sort keys offset limit, [input] => sort input keys offset limit
  | op, inputs =>
    .error (.invalidPlan (op.kind ++ s!" takes {op.arity} inputs, got {inputs.length}"))

/-- Whether two lists hold the same objects. -/
def areSame : List Plan → List Plan → Bool
  | [], [] => true
  | p :: ps, q :: qs => p.isSame q && areSame ps qs
  | _, _ => false

/-- The plan over other inputs; the plan itself if they are the ones it has. -/
def withInputs (p : Plan) (inputs : List Plan) : Except Error Plan :=
  if areSame inputs p.inputs then .ok p else rebuild p.op inputs p.schema

/-- Changes expressions from left to right. -/
def changeAll (f : Expr → Except Error Expr.Change) : List Expr → Except Error (List Expr.Change)
  | [] => .ok []
  | e :: es => do
    let c ← f e
    return c :: (← changeAll f es)

/-- The plan with its expressions changed; the plan itself if all are kept. -/
def mapExprs (p : Plan) (f : Expr → Except Error Expr.Change) : Except Error Plan := do
  let changes ← changeAll f p.op.exprs
  if changes.all Expr.Change.isKept then return p
  else rebuild (p.op.withExprs (Expr.Change.results p.op.exprs changes)) p.inputs p.schema

mutual

/-- Makes every node again, inputs first, and compares. -/
def validate : Plan → Except Error Unit
  | ⟨tag, op, inputs, schema, model⟩ => do
    validateAll inputs
    let again ← rebuild op inputs schema
    require (again.schema = schema &&
        again.fingerprint = fingerprint ⟨tag, op, inputs, schema, model⟩)
      (.internal (op.kind ++ " node does not match its re-derived form"))

def validateAll : List Plan → Except Error Unit
  | [] => .ok ()
  | p :: ps => do
    p.validate
    validateAll ps

end

end Plan

end QueryPlan
