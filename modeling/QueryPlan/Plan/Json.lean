import QueryPlan.Catalog.Json
import QueryPlan.Expr.Json
import QueryPlan.Plan.Text

/-! # Plans as JSON -/

namespace QueryPlan

namespace QueryKind

def jsonName : QueryKind → String
  | select => "Select"
  | insert => "Insert"
  | update => "Update"
  | delete => "Delete"

def ofJson? : Json → Option QueryKind := Json.oneOf? jsonName [select, insert, update, delete]

end QueryKind

namespace Write

def jsonName : Write → String
  | insert => "Insert"
  | update => "Update"
  | delete => "Delete"

def ofJson? : Json → Option Write := Json.oneOf? jsonName [insert, update, delete]

end Write

namespace SortKey

def orderName : SortOrder → String
  | .ascending => "Ascending"
  | .descending => "Descending"

def toJson (k : SortKey) : Json :=
  .obj [("index", .ofNat k.index), ("order", .str (orderName k.order))]

def ofJson? (j : Json) : Option SortKey := do
  let r ← j.record? ["index", "order"]
  return ⟨← r.get? "index" Json.nat64?,
    ← r.get? "order" (Json.oneOf? orderName [.ascending, .descending])⟩

end SortKey

namespace AggregateFunction

def jsonName : AggregateFunction → String
  | count => "Count"
  | sum => "Sum"
  | avg => "Avg"
  | min => "Min"
  | max => "Max"
  | collect => "Collect"

def ofJson? : Json → Option AggregateFunction :=
  Json.oneOf? jsonName [count, sum, avg, min, max, collect]

end AggregateFunction

namespace Aggregate

def toJson (a : Aggregate) : Json :=
  .obj [("function", .str a.function.jsonName), ("args", .arr (a.args.map .ofNat)),
    ("distinct", .bool a.distinct), ("name", .str a.name)]

def ofJson? (j : Json) : Option Aggregate := do
  let r ← j.record? ["function", "args", "distinct", "name"]
  return ⟨← r.get? "function" AggregateFunction.ofJson?,
    ← r.get? "args" (Json.each? Json.nat64?), ← r.get? "distinct" Json.bool?,
    ← r.get? "name" Json.text?⟩

end Aggregate

namespace Op

/-- The payload of an operator. -/
def contentToJson : Op → Json
  | scan entity => .obj [("entity", entity.toJson)]
  | filter predicate => .obj [("predicate", predicate.toJson)]
  | project columns =>
    .obj [("exprs", .arr (columns.map (·.expr.toJson))),
      ("names", .arr (columns.map (.ofText? ·.name)))]
  | bind bindings =>
    .obj [("calls", .arr (bindings.map (·.expr.toJson))),
      ("names", .ofTexts (bindings.map Binding.name))]
  | aggregate keys calls =>
    .obj [("group_keys", .arr (keys.map .ofNat)), ("calls", .arr (calls.map Aggregate.toJson))]
  | modify entity write targets =>
    .obj [("entity", entity.toJson), ("operation", .str write.jsonName),
      ("target_names", .ofTexts (targets.map Binding.name)),
      ("target_exprs", .arr (targets.map (·.expr.toJson)))]
  | unwind index asName => .obj [("index", .ofNat index), ("alias", .str asName)]
  | values v =>
    .obj [("nodes", .arr (v.nodes.map NodeOf.toJson)), ("edges", .arr (v.edges.map EdgeOf.toJson)),
      ("rows", .arr (v.rows.map fun row => .arr (row.map Value.toJson))),
      ("row_names", .ofTexts v.columns)]
  | call c =>
    .obj [("namespace", c.home.toJson), ("procedure", .str c.procedure),
      ("arguments", .arr (c.arguments.map Expr.toJson)), ("yield_all", .bool c.yieldAll),
      ("yield_items", .ofTexts c.yieldItems)]
  | transform c =>
    .obj [("operation_order", .arr (c.order.map Ty.toJson)),
      ("operation", .str c.operation.jsonName), ("in_model", c.source.toJson),
      ("out_model", c.target.toJson), ("names", .ofTexts c.names)]
  | sort keys offset limit =>
    .obj [("keys", .arr (keys.map SortKey.toJson)), ("offset", .ofNat? offset),
      ("limit", .ofNat? limit)]

def toJson (op : Op) : Json := .tagged op.kind op.contentToJson

end Op

namespace Plan

mutual

def toJson : Plan → Json
  | ⟨tag, op, inputs, schema, model⟩ =>
    .obj [("op", op.toJson), ("inputs", .arr (toJsonAll inputs)), ("schema", schema.toJson),
      ("model", model.toJson), ("fingerprint", .str (fingerprint ⟨tag, op, inputs, schema, model⟩))]

def toJsonAll : List Plan → List Json
  | [] => []
  | p :: ps => p.toJson :: toJsonAll ps

end

end Plan

end QueryPlan
