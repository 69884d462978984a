import QueryPlan.Draft.Combine
import QueryPlan.Lowering.Scalar
import QueryPlan.Query.Clause

/-!
# Lowering projections

`RETURN` and `WITH` compute columns over their input. A star stands for all fields of the input.
With aggregates, the other columns are the group's key. To be sorted, columns that are wanted only
as sort keys are added first and taken away afterwards.
-/

namespace QueryPlan

/-- A number of rows, which must be a literal. -/
def rowCount (keyword : String) (e : Expression) : Except Error Nat :=
  match e.literalValue? with
  | some (.int i) =>
    if 0 ≤ i.toInt then .ok i.toInt.toNat
    else .error (.unsupportedOperation
      (keyword ++ " requires a non-negative integer literal, found " ++ e.text))
  | _ =>
    .error (.unsupportedOperation
      (keyword ++ " requires a non-negative integer literal, found " ++ e.text))

def rowCount? (keyword : String) : Option Expression → Except Error (Option Nat)
  | none => .ok none
  | some e => do return some (← rowCount keyword e)

/-- The sort keys, each the last column of its name. -/
def sortKeys (schema : Schema) : List OrderItem → Except Error (List SortKey)
  | [] => .ok []
  | item :: items =>
    match schema.indexOf? item.expression.sortName with
    | some index => do return ⟨index, item.order⟩ :: (← sortKeys schema items)
    | none => .error (.unboundVariable item.expression.sortName)

/-- Columns that repeat the fields of the input. -/
def starColumns (scope : Schema) : List Column :=
  (scope.zip (scope.refs 0)).map fun (field, e) => ⟨some field.name, e⟩

/-- A column for each item. -/
def itemColumns (scope : Schema) : List ReturnItem → Except Error (List Column)
  | [] => .ok []
  | item :: items => do
    let e ← item.expression.toExpr scope
    let rest ← itemColumns scope items
    return ⟨some item.name, e⟩ :: rest

/-- A column for each sort expression whose name is not taken. -/
def hiddenColumns (scope : Schema) (taken : List String) :
    List OrderItem → Except Error (List Column)
  | [] => .ok []
  | item :: items =>
    let name := item.expression.sortName
    if taken.contains name then hiddenColumns scope taken items
    else do
      let e ← item.expression.toExpr scope
      let rest ← hiddenColumns scope (taken ++ [name]) items
      return ⟨some name, e⟩ :: rest

/-- An aggregate as an item asks for it; `count(*)` has no argument. -/
structure AggregateItem where
  function : AggregateFunction
  argument : Option Expression
  distinct : Bool
  name : String

/-- Takes an item apart that contains an aggregate, which must be all there is to it. -/
def aggregateItem (name : String) (e : Expression) : Except Error AggregateItem :=
  match e with
  | .countStar => .ok ⟨.count, none, false, name⟩
  | .call f args distinct =>
    match AggregateFunction.ofName? f with
    | none => .error (.unsupportedOperation ("aggregate inside " ++ f ++ "() is not supported"))
    | some function =>
      match args with
      | [arg] =>
        if arg.containsAggregate then
          .error (.unsupportedOperation "nested aggregates are not supported")
        else .ok ⟨function, some arg, distinct, name⟩
      | _ => .error (.unsupportedOperation (f ++ "() takes exactly one argument"))
  | e =>
    .error (.unsupportedOperation
      ("aggregate must be the outermost expression, found " ++ e.text))

/-- Divides items into the columns of the group's key and the aggregates. -/
def splitItems (scope : Schema) :
    List ReturnItem → Except Error (List Column × List AggregateItem)
  | [] => .ok ([], [])
  | item :: items =>
    if item.expression.containsAggregate then do
      let a ← aggregateItem item.name item.expression
      let (keys, aggregates) ← splitItems scope items
      return (keys, a :: aggregates)
    else do
      let e ← item.expression.toExpr scope
      let (keys, aggregates) ← splitItems scope items
      return (⟨some item.name, e⟩ :: keys, aggregates)

/-- The columns of the aggregates' arguments, from column `width` on, and the aggregates over them;
`count` is the number of aggregates before. -/
def aggregateCalls (scope : Schema) (width count : Nat) :
    List AggregateItem → Except Error (List Column × List Aggregate)
  | [] => .ok ([], [])
  | a :: items =>
    match a.argument with
    | some argument => do
      let e ← argument.toExpr scope
      let (columns, calls) ← aggregateCalls scope (width + 1) (count + 1) items
      return (⟨some (exprName count), e⟩ :: columns,
        ⟨a.function, [width], a.distinct, a.name⟩ :: calls)
    | none => do
      let (columns, calls) ← aggregateCalls scope width (count + 1) items
      return (columns, ⟨a.function, [], a.distinct, a.name⟩ :: calls)

namespace Projection

/-- The fields that the star stands for. -/
def starFields (p : Projection) (scope : Schema) : Schema := if p.star then scope else []

/-- The names of the columns asked for. -/
def names (p : Projection) (scope : Schema) : List String :=
  (p.starFields scope).names ++ p.items.map ReturnItem.name

/-- The plan sorted and cut off as asked. -/
def sort (p : Projection) (input : Plan) : Except Error Plan := do
  let keys ← sortKeys input.schema p.orderBy
  let offset ← rowCount? "SKIP" p.skip
  let limit ← rowCount? "LIMIT" p.limit
  Plan.sort input keys offset limit

/-- The plan grouped by the columns without aggregates. -/
def group (p : Projection) (input : Plan) : Except Error Plan := do
  let scope := input.schema
  let (itemKeys, items) ← splitItems scope p.items
  let keys := starColumns (p.starFields scope) ++ itemKeys
  let (columns, calls) ← aggregateCalls scope keys.length 0 items
  let project ← Plan.projectColumns input (keys ++ columns)
  Plan.aggregate project (List.range keys.length) calls

/-- Sorts groups, by their columns only. -/
def sortGroups (p : Projection) (node : Plan) : Except Error Plan :=
  if p.isSorted then
    match p.orderBy.find? fun item =>
        (node.schema.indexOf? item.expression.sortName).isNone with
    | some item =>
      .error (.unsupportedOperation
        ("ORDER BY " ++ item.expression.text ++ " after aggregation must name an aggregate column"))
    | none => p.sort node
  else .ok node

/-- The first `n` columns of a plan. -/
def visible (n : Nat) (node : Plan) : Except Error Plan :=
  Plan.projectColumns node (starColumns (node.schema.take n))

/-- The columns of a projection without aggregates. -/
def columns (p : Projection) (scope : Schema) : Except Error (List Column) := do
  let items ← itemColumns scope p.items
  return starColumns (p.starFields scope) ++ items

/-- The projection of a plan. -/
def toPlan (p : Projection) (input : Plan) : Except Error Plan := do
  let scope := input.schema
  let names := p.names scope
  require (!names.isEmpty) (.invalidPlan "projection without items")
  let twice := duplicateNames names
  require twice.isEmpty (.invalidPlan ("duplicate column name: " ++ commas twice))
  if p.items.any (·.expression.containsAggregate) then
    let groups ← p.group input
    p.sortGroups groups
  else
    let columns ← p.columns scope
    if p.isSorted then
      let hidden ← hiddenColumns scope names p.orderBy
      let project ← Plan.projectColumns input (columns ++ hidden)
      let sorted ← p.sort project
      if hidden.isEmpty then return sorted else visible names.length sorted
    else Plan.projectColumns input columns

end Projection

end QueryPlan
