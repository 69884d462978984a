import QueryPlan.Digest
import QueryPlan.Plan.Basic

/-!
# The text of plans

A plan is explained line by line, inputs indented under the node that reads them. Its fingerprint is
one line for the whole tree, by which plans are compared.
-/

namespace QueryPlan

def Aggregate.text (a : Aggregate) : String :=
  let args := if a.args.isEmpty then "*" else commas (a.args.map fun i => s!"${i}")
  a.function.text ++ "(" ++ (if a.distinct then "DISTINCT " else "") ++ args ++ ") AS " ++ a.name

def Column.text (c : Column) : String :=
  match c.name with
  | some name => Text.quote name ++ "=" ++ c.expr.text
  | none => "_=" ++ c.expr.text

def Binding.text (b : Binding) : String := b.name ++ "=" ++ b.expr.text

def SortKey.text (k : SortKey) : String := s!"${k.index} " ++ k.order.text

def LiteralRows.text (v : LiteralRows) : String :=
  "nodes=[" ++ commas (v.nodes.map NodeOf.text) ++ "], edges=[" ++
    commas (v.edges.map EdgeOf.text) ++ "]" ++
    if v.columns.isEmpty then ""
    else
      ", columns=" ++ Text.quoteList v.columns ++ ", rows=[" ++
        commas (v.rows.map fun row => "(" ++ commas (row.map Value.text) ++ ")") ++ "]"

def ProcedureCall.text (c : ProcedureCall) : String :=
  c.home.text ++ " " ++ c.procedure ++ "(" ++ commas (c.arguments.map Expr.text) ++ ")" ++
    if c.yieldAll then " YIELD *"
    else if c.yieldItems.isEmpty then ""
    else " YIELD " ++ commas c.yieldItems

def Conversion.text (c : Conversion) : String :=
  c.source.text ++ "->" ++ c.target.text ++ ", " ++ c.operation.text ++ ", order=[" ++
    commas (c.order.map Ty.text) ++ "], names=" ++ Text.quoteList c.names

/-- The text of an operator's payload. -/
def Op.payload : Op → String
  | scan entity => entity.text
  | filter predicate => predicate.text
  | project columns => commas (columns.map Column.text)
  | bind bindings => commas (bindings.map Binding.text)
  | aggregate keys calls =>
    "keys=[" ++ commas (keys.map toString) ++ "], calls=[" ++ commas (calls.map Aggregate.text) ++
      "]"
  | modify entity write targets =>
    write.text ++ " " ++ entity.text ++ String.join (targets.map (", " ++ ·.text))
  | unwind index asName => s!"${index} AS " ++ asName
  | values rows => rows.text
  | call c => c.text
  | transform c => c.text
  | sort keys offset limit =>
    commas (keys.map SortKey.text) ++
      (match offset with
        | some n => s!", offset={n}"
        | none => "") ++
      (match limit with
        | some n => s!", limit={n}"
        | none => "")

namespace Plan

/-- The operator, its model and its payload. -/
def headline (p : Plan) : String :=
  p.kind ++ "[" ++ p.model.text ++ "](" ++ p.op.payload ++ ")"

mutual

/-- The whole tree on one line. Only a change of model shows its schema, since the schema of any
other node follows from the rest. -/
def fingerprint : Plan → String
  | ⟨tag, op, inputs, schema, model⟩ =>
    headline ⟨tag, op, inputs, schema, model⟩ ++ (if op.isTransform then schema.text else "") ++
      if inputs.isEmpty then "" else "[" ++ ";".intercalate (fingerprints inputs) ++ "]"

def fingerprints : List Plan → List String
  | [] => []
  | p :: ps => p.fingerprint :: fingerprints ps

end

/-- A word of 64 bits computed from the fingerprint. -/
def digest (p : Plan) : UInt64 := Digest.ofText p.fingerprint

/-- Plans are equal if their fingerprints are. -/
instance : BEq Plan := ⟨fun p q => p.fingerprint == q.fingerprint⟩

/-- Two blanks for each level. -/
def indent (depth : Nat) : String := String.ofList (List.replicate (2 * depth) ' ')

mutual

/-- The lines of the tree, with the depth of each. -/
def lines (depth : Nat) : Plan → List String
  | ⟨tag, op, inputs, schema, model⟩ =>
    (indent depth ++ headline ⟨tag, op, inputs, schema, model⟩ ++ " -> " ++ Schema.text schema) ::
      linesAll (depth + 1) inputs

def linesAll (depth : Nat) : List Plan → List String
  | [] => []
  | p :: ps => p.lines depth ++ linesAll depth ps

end

/-- The tree, one node per line. -/
def explain (p : Plan) : String := String.join ((p.lines 0).map (· ++ "\n"))

end Plan

end QueryPlan
