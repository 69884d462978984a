import QueryPlan.Query.Clause
import QueryPlan.Value.Json

/-! # Queries as JSON -/

namespace QueryPlan

namespace Span

def toJson (s : Span) : Json :=
  .obj [("start", .ofNat s.start), ("end", .ofNat s.stop), ("line", .ofNat s.line),
    ("column", .ofNat s.column)]

def ofJson? (j : Json) : Option Span := do
  let r ← j.record? ["start", "end", "line", "column"]
  return ⟨← r.get? "start" Json.nat64?, ← r.get? "end" Json.nat64?, ← r.get? "line" Json.nat32?,
    ← r.get? "column" Json.nat32?⟩

end Span

/-- A value of some kind, or null. -/
def Json.orNull {α : Type} (f : α → Json) : Option α → Json
  | some a => f a
  | none => .null

/-- The field that says where something stands. -/
def spanField (span : Option Span) : String × Json := ("span", Json.orNull Span.toJson span)

def Json.Record.span? (r : Json.Record) : Option (Option Span) := r.opt? "span" Span.ofJson?

namespace Literal

def toJson : Literal → Json
  | null => .str "Null"
  | bool b => .tagged "Bool" (.bool b)
  | integer i => .tagged "Integer" (.int i.toInt)
  | float x => .tagged "Float" (.real x)
  | string s => .tagged "String" (.str s)

def ofJson? (j : Json) : Option Literal := do
  let (name, content) ← j.variant?
  match name with
  | "Null" => content.nothing? null
  | "Bool" => bool <$> content.bool?
  | "Integer" => integer <$> content.int64?
  | "Float" => float <$> content.real?
  | "String" => string <$> content.text?
  | _ => none

end Literal

namespace BinaryOp

def jsonName : BinaryOp → String
  | eq => "Eq"
  | ne => "Ne"
  | lt => "Lt"
  | le => "Le"
  | gt => "Gt"
  | ge => "Ge"
  | and => "And"
  | or => "Or"
  | xor => "Xor"
  | add => "Add"
  | sub => "Sub"
  | mul => "Mul"
  | div => "Div"
  | mod => "Mod"
  | pow => "Pow"
  | isIn => "In"
  | startsWith => "StartsWith"
  | endsWith => "EndsWith"
  | contains => "Contains"
  | regexMatch => "RegexMatch"

def ofJson? : Json → Option BinaryOp :=
  Json.oneOf? jsonName [eq, ne, lt, le, gt, ge, and, or, xor, add, sub, mul, div, mod, pow, isIn,
    startsWith, endsWith, contains, regexMatch]

end BinaryOp

namespace UnaryOp

def jsonName : UnaryOp → String
  | not => "Not"
  | neg => "Neg"
  | isNull => "IsNull"
  | isNotNull => "IsNotNull"

def ofJson? : Json → Option UnaryOp := Json.oneOf? jsonName [not, neg, isNull, isNotNull]

end UnaryOp

namespace Expression

mutual

def toJson : Expression → Json
  | literal l => .tagged "Literal" l.toJson
  | var name => .tagged "Variable" (.str name)
  | parameter name => .tagged "Parameter" (.str name)
  | property name key =>
    .tagged "PropertyAccess" (.obj [("variable", .str name), ("property", .str key)])
  | hasLabels name labels =>
    .tagged "HasLabels" (.obj [("variable", .str name), ("labels", .ofTexts labels)])
  | binary left op right =>
    .tagged "Binary" (.obj [("left", left.toJson), ("op", .str op.jsonName),
      ("right", right.toJson)])
  | unary op operand =>
    .tagged "Unary" (.obj [("op", .str op.jsonName), ("operand", operand.toJson)])
  | call name args distinct =>
    .tagged "FunctionCall" (.obj [("name", .str name), ("args", .arr (toJsonAll args)),
      ("distinct", .bool distinct)])
  | countStar => .str "CountStar"
  | list items => .tagged "List" (.arr (toJsonAll items))
  | map entries => .tagged "Map" (.arr (toJsonEntries entries))
  | case input arms otherwise =>
    .tagged "Case" (.obj [("input", toJson? input), ("whens", .arr (toJsonArms arms)),
      ("else_clause", toJson? otherwise)])

def toJsonAll : List Expression → List Json
  | [] => []
  | e :: es => e.toJson :: toJsonAll es

def toJsonEntries : List (String × Expression) → List Json
  | [] => []
  | (key, e) :: rest => .arr [.str key, e.toJson] :: toJsonEntries rest

def toJsonArms : List (Expression × Expression) → List Json
  | [] => []
  | (condition, value) :: rest => .arr [condition.toJson, value.toJson] :: toJsonArms rest

def toJson? : Option Expression → Json
  | none => .null
  | some e => e.toJson

end

/-- The fuel bounds the depth. -/
def read? (source : Json.Source) : Nat → Json → Option Expression
  | 0, _ => none
  | fuel + 1, j => do
    let (name, content) ← j.variant?
    match name with
    | "Literal" => literal <$> Literal.ofJson? content
    | "Variable" => var <$> content.text?
    | "Parameter" => parameter <$> content.text?
    | "PropertyAccess" =>
      let r ← content.variantRecord? source ["variable", "property"]
      return property (← r.get? "variable" Json.text?) (← r.get? "property" Json.text?)
    | "HasLabels" =>
      let r ← content.variantRecord? source ["variable", "labels"]
      return hasLabels (← r.get? "variable" Json.text?) (← r.get? "labels" (Json.each? Json.text?))
    | "Binary" =>
      let r ← content.variantRecord? source ["left", "op", "right"]
      return binary (← r.get? "left" (read? source fuel)) (← r.get? "op" BinaryOp.ofJson?)
        (← r.get? "right" (read? source fuel))
    | "Unary" =>
      let r ← content.variantRecord? source ["op", "operand"]
      return unary (← r.get? "op" UnaryOp.ofJson?) (← r.get? "operand" (read? source fuel))
    | "FunctionCall" =>
      let r ← content.variantRecord? source ["name", "args", "distinct"]
      return call (← r.get? "name" Json.text?) (← r.get? "args" (Json.each? (read? source fuel)))
        (← r.flag? "distinct")
    | "CountStar" => content.nothing? countStar
    | "List" => list <$> content.each? (read? source fuel)
    | "Map" => map <$> content.each? (Json.pair? Json.text? (read? source fuel))
    | "Case" =>
      let r ← content.variantRecord? source ["input", "whens", "else_clause"]
      return case (← r.nullable? "input" (read? source fuel))
        (← r.get? "whens" (Json.each? (Json.pair? (read? source fuel) (read? source fuel))))
        (← r.nullable? "else_clause" (read? source fuel))
    | _ => none

def ofJson? (source : Json.Source) (j : Json) : Option Expression := read? source (j.depth + 1) j

end Expression

/-- Properties of a pattern in the order they are written. -/
def patternProperties (properties : List (String × Expression)) : Json :=
  .arr (Expression.toJsonEntries properties)

def Json.Record.properties? (source : Json.Source) (r : Json.Record) :
    Option (List (String × Expression)) :=
  r.list? "properties" (Json.pair? Json.text? (Expression.ofJson? source))

namespace NodePattern

def toJson (n : NodePattern) : Json :=
  .obj [("variable", .ofText? n.var), ("labels", .ofTexts n.labels),
    ("properties", patternProperties n.properties), spanField n.span]

def ofJson? (source : Json.Source) (j : Json) : Option NodePattern := do
  let r ← j.record? ["variable", "labels", "properties", "span"]
  return ⟨← r.opt? "variable" Json.text?, ← r.list? "labels" Json.text?, ← r.properties? source,
    ← r.span?⟩

end NodePattern

namespace HopRange

def toJson (h : HopRange) : Json := .obj [("min", .ofNat? h.least), ("max", .ofNat? h.most)]

def ofJson? (j : Json) : Option HopRange := do
  let r ← j.record? ["min", "max"]
  return ⟨← r.opt? "min" Json.nat32?, ← r.opt? "max" Json.nat32?⟩

end HopRange

namespace EdgePattern

def toJson (e : EdgePattern) : Json :=
  .obj [("variable", .ofText? e.var), ("types", .ofTexts e.types),
    ("direction", e.direction.toJson), ("properties", patternProperties e.properties),
    ("range", .orNull HopRange.toJson e.range), ("target", e.target.toJson), spanField e.span]

def ofJson? (source : Json.Source) (j : Json) : Option EdgePattern := do
  let r ← j.record? ["variable", "types", "direction", "properties", "range", "target", "span"]
  return ⟨← r.opt? "variable" Json.text?, ← r.list? "types" Json.text?,
    ← r.get? "direction" Direction.ofJson?, ← r.properties? source,
    ← r.opt? "range" HopRange.ofJson?, ← r.get? "target" (NodePattern.ofJson? source), ← r.span?⟩

end EdgePattern

namespace Pattern

def toJson : Pattern → Json
  | node n => .tagged "Node" n.toJson
  | path p =>
    .tagged "Path" (.obj [("variable", .ofText? p.var), ("source", p.source.toJson),
      ("edges", .arr (p.edges.map EdgePattern.toJson)), spanField p.span])

def ofJson? (source : Json.Source) (j : Json) : Option Pattern := do
  let (name, content) ← j.variant?
  match name with
  | "Node" => node <$> NodePattern.ofJson? source content
  | "Path" =>
    let r ← content.record? ["variable", "source", "edges", "span"]
    return path ⟨← r.opt? "variable" Json.text?, ← r.get? "source" (NodePattern.ofJson? source),
      ← r.get? "edges" (Json.each? (EdgePattern.ofJson? source)), ← r.span?⟩
  | _ => none

end Pattern

namespace ReturnItem

def toJson (i : ReturnItem) : Json :=
  .obj [("expression", i.expression.toJson), ("alias", .ofText? i.asName), spanField i.span]

def ofJson? (source : Json.Source) (j : Json) : Option ReturnItem := do
  let r ← j.record? ["expression", "alias", "span"]
  return ⟨← r.get? "expression" (Expression.ofJson? source), ← r.opt? "alias" Json.text?, ← r.span?⟩

end ReturnItem

namespace OrderItem

def orderName : SortOrder → String
  | .ascending => "Asc"
  | .descending => "Desc"

def toJson (i : OrderItem) : Json :=
  .obj [("expression", i.expression.toJson), ("order", .str (orderName i.order))]

def ofJson? (source : Json.Source) (j : Json) : Option OrderItem := do
  let r ← j.record? ["expression", "order"]
  return ⟨← r.get? "expression" (Expression.ofJson? source),
    ← r.getD? "order" .ascending (Json.oneOf? orderName [.ascending, .descending])⟩

end OrderItem

namespace Projection

def fieldNames : List String := ["distinct", "star", "items", "order_by", "skip", "limit"]

def fields (p : Projection) : List (String × Json) :=
  [("distinct", .bool p.distinct), ("star", .bool p.star),
    ("items", .arr (p.items.map ReturnItem.toJson)),
    ("order_by", .arr (p.orderBy.map OrderItem.toJson)), ("skip", Expression.toJson? p.skip),
    ("limit", Expression.toJson? p.limit)]

def ofRecord? (source : Json.Source) (r : Json.Record) : Option Projection :=
  do return ⟨← r.flag? "distinct", ← r.flag? "star", ← r.list? "items" (ReturnItem.ofJson? source),
    ← r.list? "order_by" (OrderItem.ofJson? source), ← r.opt? "skip" (Expression.ofJson? source),
    ← r.opt? "limit" (Expression.ofJson? source)⟩

end Projection

namespace SetItem

def toJson : SetItem → Json
  | property name key value =>
    .tagged "Property" (.obj [("variable", .str name), ("property", .str key),
      ("value", value.toJson)])
  | replace name value =>
    .tagged "Replace" (.obj [("variable", .str name), ("value", value.toJson)])
  | merge name value => .tagged "Merge" (.obj [("variable", .str name), ("value", value.toJson)])
  | labels name names =>
    .tagged "Labels" (.obj [("variable", .str name), ("labels", .ofTexts names)])

def ofJson? (source : Json.Source) (j : Json) : Option SetItem := do
  let (name, content) ← j.variant?
  match name with
  | "Property" =>
    let r ← content.variantRecord? source ["variable", "property", "value"]
    return property (← r.get? "variable" Json.text?) (← r.get? "property" Json.text?)
      (← r.get? "value" (Expression.ofJson? source))
  | "Replace" =>
    let r ← content.variantRecord? source ["variable", "value"]
    return replace (← r.get? "variable" Json.text?) (← r.get? "value" (Expression.ofJson? source))
  | "Merge" =>
    let r ← content.variantRecord? source ["variable", "value"]
    return merge (← r.get? "variable" Json.text?) (← r.get? "value" (Expression.ofJson? source))
  | "Labels" =>
    let r ← content.variantRecord? source ["variable", "labels"]
    return labels (← r.get? "variable" Json.text?) (← r.get? "labels" (Json.each? Json.text?))
  | _ => none

end SetItem

namespace RemoveItem

def toJson : RemoveItem → Json
  | property name key =>
    .tagged "Property" (.obj [("variable", .str name), ("property", .str key)])
  | labels name names =>
    .tagged "Labels" (.obj [("variable", .str name), ("labels", .ofTexts names)])

def ofJson? (source : Json.Source) (j : Json) : Option RemoveItem := do
  let (name, content) ← j.variant?
  match name with
  | "Property" =>
    let r ← content.variantRecord? source ["variable", "property"]
    return property (← r.get? "variable" Json.text?) (← r.get? "property" Json.text?)
  | "Labels" =>
    let r ← content.variantRecord? source ["variable", "labels"]
    return labels (← r.get? "variable" Json.text?) (← r.get? "labels" (Json.each? Json.text?))
  | _ => none

end RemoveItem

namespace Clause

mutual

def toJson : Clause → Json
  | matching c =>
    .tagged "Match" (.obj [("optional", .bool c.optional),
      ("patterns", .arr (c.patterns.map Pattern.toJson)),
      ("where_clause", Expression.toJson? c.condition), spanField c.span])
  | passing c =>
    .tagged "With" (.obj (c.projection.fields ++
      [("where_clause", Expression.toJson? c.condition), spanField c.span]))
  | returning c => .tagged "Return" (.obj (c.projection.fields ++ [spanField c.span]))
  | creating c =>
    .tagged "Create" (.obj [("patterns", .arr (c.patterns.map Pattern.toJson)), spanField c.span])
  | setting c =>
    .tagged "Set" (.obj [("items", .arr (c.items.map SetItem.toJson)), spanField c.span])
  | removing c =>
    .tagged "Remove" (.obj [("items", .arr (c.items.map RemoveItem.toJson)), spanField c.span])
  | deleting c =>
    .tagged "Delete" (.obj [("variables", .ofTexts c.vars), ("detach", .bool c.detach),
      spanField c.span])
  | unwinding c =>
    .tagged "Unwind" (.obj [("expression", c.expression.toJson), ("alias", .str c.asName),
      spanField c.span])
  | calling c =>
    .tagged "Call" (.obj [("procedure", .str c.procedure),
      ("args", .arr (Expression.toJsonAll c.args)), ("yield_all", .bool c.yieldAll),
      ("yield_items", .ofTexts c.yieldItems), spanField c.span])
  | onGraph c => .tagged "Use" (.obj [("graph", .str c.graph), spanField c.span])
  | merging c => .tagged "Merge" (.obj [("pattern", c.pattern.toJson), spanField c.span])
  | repeating name list clauses span =>
    .tagged "Foreach" (.obj [("variable", .str name), ("list", list.toJson),
      ("clauses", .arr (toJsonAll clauses)), spanField span])
  | loading c =>
    .tagged "LoadCsv" (.obj [("url", .str c.url), ("variable", .str c.var),
      ("with_headers", .bool c.withHeaders), spanField c.span])

def toJsonAll : List Clause → List Json
  | [] => []
  | c :: cs => c.toJson :: toJsonAll cs

end

/-- The fuel bounds the depth. -/
def read? (source : Json.Source) : Nat → Json → Option Clause
  | 0, _ => none
  | fuel + 1, j => do
    let (name, content) ← j.variant?
    match name with
    | "Match" =>
      let r ← content.record? ["optional", "patterns", "where_clause", "span"]
      return matching ⟨← r.flag? "optional",
        ← r.get? "patterns" (Json.each? (Pattern.ofJson? source)),
        ← r.opt? "where_clause" (Expression.ofJson? source), ← r.span?⟩
    | "With" =>
      let r ← content.record? (Projection.fieldNames ++ ["where_clause", "span"])
      return passing ⟨← Projection.ofRecord? source r,
        ← r.opt? "where_clause" (Expression.ofJson? source), ← r.span?⟩
    | "Return" =>
      let r ← content.record? (Projection.fieldNames ++ ["span"])
      return returning ⟨← Projection.ofRecord? source r, ← r.span?⟩
    | "Create" =>
      let r ← content.record? ["patterns", "span"]
      return creating ⟨← r.get? "patterns" (Json.each? (Pattern.ofJson? source)), ← r.span?⟩
    | "Set" =>
      let r ← content.record? ["items", "span"]
      return setting ⟨← r.get? "items" (Json.each? (SetItem.ofJson? source)), ← r.span?⟩
    | "Remove" =>
      let r ← content.record? ["items", "span"]
      return removing ⟨← r.get? "items" (Json.each? (RemoveItem.ofJson? source)), ← r.span?⟩
    | "Delete" =>
      let r ← content.record? ["variables", "detach", "span"]
      return deleting ⟨← r.get? "variables" (Json.each? Json.text?), ← r.flag? "detach",
        ← r.span?⟩
    | "Unwind" =>
      let r ← content.record? ["expression", "alias", "span"]
      return unwinding ⟨← r.get? "expression" (Expression.ofJson? source),
        ← r.get? "alias" Json.text?, ← r.span?⟩
    | "Call" =>
      let r ← content.record? ["procedure", "args", "yield_all", "yield_items", "span"]
      return calling ⟨← r.get? "procedure" Json.text?, ← r.list? "args" (Expression.ofJson? source),
        ← r.flag? "yield_all", ← r.list? "yield_items" Json.text?, ← r.span?⟩
    | "Use" =>
      let r ← content.record? ["graph", "span"]
      return onGraph ⟨← r.get? "graph" Json.text?, ← r.span?⟩
    | "Merge" =>
      let r ← content.record? ["pattern", "span"]
      return merging ⟨← r.get? "pattern" (Pattern.ofJson? source), ← r.span?⟩
    | "Foreach" =>
      let r ← content.record? ["variable", "list", "clauses", "span"]
      return repeating (← r.get? "variable" Json.text?)
        (← r.get? "list" (Expression.ofJson? source)) (← r.list? "clauses" (read? source fuel))
        (← r.span?)
    | "LoadCsv" =>
      let r ← content.record? ["url", "variable", "with_headers", "span"]
      return loading ⟨← r.get? "url" Json.text?, ← r.get? "variable" Json.text?,
        ← r.flag? "with_headers", ← r.span?⟩
    | _ => none

def ofJson? (source : Json.Source) (j : Json) : Option Clause := read? source (j.depth + 1) j

end Clause

namespace SingleQuery

def toJson (q : SingleQuery) : Json :=
  .obj [("clauses", .arr (q.clauses.map Clause.toJson)), spanField q.span]

def ofJson? (source : Json.Source) (j : Json) : Option SingleQuery := do
  let r ← j.record? ["clauses", "span"]
  return ⟨← r.get? "clauses" (Json.each? (Clause.ofJson? source)), ← r.span?⟩

end SingleQuery

namespace Query

def toJson : Query → Json
  | single q => .tagged "Single" q.toJson
  | union queries all =>
    .tagged "Union" (.obj [("queries", .arr (queries.map SingleQuery.toJson)), ("all", .bool all)])
  | periodicCommit batchSize q =>
    .tagged "PeriodicCommit" (.obj [("batch_size", .ofNat? batchSize), ("query", q.toJson)])

def ofJson? (source : Json.Source) (j : Json) : Option Query := do
  let (name, content) ← j.variant?
  match name with
  | "Single" => single <$> SingleQuery.ofJson? source content
  | "Union" =>
    let r ← content.variantRecord? source ["queries", "all"]
    return union (← r.get? "queries" (Json.each? (SingleQuery.ofJson? source)))
      (← r.get? "all" Json.bool?)
  | "PeriodicCommit" =>
    let r ← content.variantRecord? source ["batch_size", "query"]
    return periodicCommit (← r.nullable? "batch_size" Json.nat64?)
      (← r.get? "query" (SingleQuery.ofJson? source))
  | _ => none

end Query

end QueryPlan
