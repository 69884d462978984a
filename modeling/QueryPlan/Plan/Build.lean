import QueryPlan.Expr.Typing
import QueryPlan.Plan.Text

/-!
# Making plans

One function for each operator. Each checks its payload against the inputs, derives the schema, and
sees to it that the node has the model of its inputs; only `transform` changes the model.
-/

namespace QueryPlan

/-- A reference must name a field that there is, with the type that field has. -/
def checkRef (schema : Schema) (index : Nat) (ty : Ty) : Except Error Unit :=
  match schema[index]? with
  | some field =>
    require (field.ty = ty) (.typeMismatch (field.ty.text ++ s!" for ${index}") ty.text)
  | none =>
    .error (.invalidPlan
      s!"expression refers to ${index} but input has {schema.length} fields")

/-- Checks references from left to right. -/
def checkAll (schema : Schema) : List (Nat × Ty) → Except Error Unit
  | [] => .ok ()
  | (index, ty) :: rest => do
    checkRef schema index ty
    checkAll schema rest

/-- Checks the references of expressions from left to right. -/
def checkRefs (schema : Schema) (exprs : List Expr) : Except Error Unit :=
  checkAll schema (Expr.refsAll exprs)

/-- Lists that belong together have one length. -/
def pairUp {α β : Type} (as : List α) (bs : List β) (unequal : Error) :
    Except Error (List (α × β)) :=
  if as.length = bs.length then .ok (as.zip bs) else .error unequal

/-- The fields of the procedures that can be called. -/
def procedureSchema? (name : String) : Option Schema :=
  match name with
  | "db.labels" => some [⟨"label", .string⟩]
  | "db.relationshipTypes" => some [⟨"relationshipType", .string⟩]
  | "db.propertyKeys" => some [⟨"propertyKey", .string⟩]
  | "db.schema.nodeTypeProperties" =>
    some [⟨"nodeType", .string⟩, ⟨"propertyName", .string⟩, ⟨"propertyTypes", .list .string⟩]
  | _ => none

/-- The fields of the columns that have a name. -/
def Column.fields (columns : List Column) : Schema :=
  columns.filterMap fun c => c.name.map (⟨·, c.expr.ty⟩)

/-- A field for each binding. -/
def Binding.fields (bindings : List Binding) : Schema :=
  bindings.map fun b => ⟨b.name, b.expr.ty⟩

namespace LiteralRows

/-- The types of the columns are those of the first row. -/
def columnFields (columns : List String) (rows : List (List Value)) : Schema :=
  match rows with
  | [] => columns.map (⟨·, .any⟩)
  | row :: _ => columns.zipWith (fun name value => ⟨name, value.ty⟩) row

/-- One field for each node, named `null` if the node has no variable, then one for each column. -/
def schema (v : LiteralRows) : Schema :=
  v.nodes.map (fun n => ⟨n.var.getD "null", .node⟩) ++ columnFields v.columns v.rows

/-- Whether both ends of an edge are nodes written out here. -/
def holdsEnds (v : LiteralRows) (e : Edge) : Bool :=
  let ends := v.nodes.filterMap NodeOf.endpoint?
  ends.contains e.source && ends.contains e.target

end LiteralRows

namespace Plan

/-- The first input of another model, if that is a fault: only a change of model may have one. -/
def strangeInput? (op : Op) (inputs : List Plan) (model : Model) : Option Plan :=
  if op.isTransform then none else inputs.find? (·.model ≠ model)

/-- A new node. -/
def build (op : Op) (inputs : List Plan) (schema : Schema) (model : Model) : Except Error Plan :=
  match strangeInput? op inputs model with
  | some child => .error (.modelMismatch model child.model)
  | none => .ok ⟨none, op, inputs, schema, model⟩

/-- All of an entity. -/
def scan (entity : Entity) : Except Error Plan :=
  build (.scan entity) [] entity.schema entity.model

/-- All of the entity with a number. -/
def scanById (catalog : Catalog) (id : EntityId) : Except Error Plan :=
  match catalog.entity? id with
  | some entity => scan entity
  | none => .error (.unknownEntity id.text)

/-- The rows for which the predicate holds. -/
def filter (input : Plan) (predicate : Expr) : Except Error Plan := do
  predicate.expect Ty.isBooleanLike "bool"
  checkRefs input.schema [predicate]
  build (.filter predicate) [input] input.schema input.model

/-- One column for each expression. -/
def projectColumns (input : Plan) (columns : List Column) : Except Error Plan := do
  checkRefs input.schema (columns.map Column.expr)
  build (.project columns) [input] (Column.fields columns) input.model

/-- Expressions over the input; those without a name are computed but yield no field. -/
def project (input : Plan) (exprs : List Expr) (names : List (Option String)) :
    Except Error Plan := do
  let pairs ← pairUp names exprs
    (.invalidPlan s!"project has {exprs.length} expressions but {names.length} names")
  projectColumns input (pairs.map fun (name, expr) => ⟨name, expr⟩)

/-- A pattern call for each variable, over a graph. -/
def matchBindings (input : Plan) (bindings : List Binding) : Except Error Plan := do
  match bindings.find? (·.expr.operator? ≠ some .patternMatch) with
  | some bad => throw (.invalidPlan ("match expects pattern calls, found " ++ bad.expr.text))
  | none => pure ()
  checkRefs input.schema (bindings.map Binding.expr)
  build (.bind bindings) [input] (Binding.fields bindings) .graph

/-- Binds variables by pattern calls over a graph. -/
def patternMatch (input : Plan) (calls : List Expr) (names : List String) : Except Error Plan := do
  require (input.model = .graph)
    (.unsupportedInput ("pattern match requires a GRAPH input, found " ++ input.model.text))
  let pairs ← pairUp names calls
    (.invalidPlan s!"match has {calls.length} calls but {names.length} names")
  matchBindings input (pairs.map fun (name, expr) => ⟨name, expr⟩)

/-- Groups by the fields `keys`. The group's key comes out as a document `_id`, followed by one
document for each aggregate. -/
def aggregate (input : Plan) (keys : List Nat) (calls : List Aggregate) : Except Error Plan := do
  let width := input.schema.length
  match (keys ++ calls.flatMap Aggregate.args).find? (width ≤ ·) with
  | some index =>
    throw (.invalidPlan s!"aggregate refers to ${index} but input has {width} fields")
  | none => pure ()
  build (.aggregate keys calls) [input]
    (⟨"_id", .document⟩ :: calls.map fun c => ⟨c.name, .document⟩) input.model

/-- Writes the targets, and yields how many rows it wrote. -/
def modifyTargets (entity : Entity) (input : Plan) (write : Write) (targets : List Binding) :
    Except Error Plan := do
  checkRefs input.schema (targets.map Binding.expr)
  build (.modify entity write targets) [input] (.single "ROWCOUNT" .int64) input.model

/-- Writes to an entity. An insert has no targets; an update or a delete has one expression for each
of its targets, of which there is at least one. -/
def modify (entity : Entity) (input : Plan) (write : Write) (names : List String)
    (exprs : List Expr) : Except Error Plan := do
  if write = .insert then
    require (names.isEmpty && exprs.isEmpty) (.invalidPlan "insert takes no targets")
  else
    require (!names.isEmpty)
      (.emptyOperation ("empty " ++ Text.lower write.text ++ " is not permitted"))
  let pairs ← pairUp names exprs
    (.invalidPlan s!"modify has {names.length} targets but {exprs.length} expressions")
  modifyTargets entity input write (pairs.map fun (name, expr) => ⟨name, expr⟩)

/-- One row for each element of the list in a field. -/
def unwind (input : Plan) (index : Nat) (asName : String) : Except Error Plan :=
  match input.schema[index]? with
  | none =>
    .error (.invalidPlan s!"unwind refers to ${index} but input has {input.schema.length} fields")
  | some field =>
    match field.ty with
    | .list element => build (.unwind index asName) [input] (.single asName element) input.model
    | .any => build (.unwind index asName) [input] (.single asName .any) input.model
    | other => .error (.mismatch "list" other)

/-- Nodes, edges between them, and rows. -/
def values (v : LiteralRows) : Except Error Plan := do
  match v.rows.find? (·.length ≠ v.columns.length) with
  | some row =>
    throw (.invalidPlan s!"values row has {row.length} columns, expected {v.columns.length}")
  | none => pure ()
  match v.edges.find? (!v.holdsEnds ·) with
  | some e =>
    throw (.invalidPlan ("values edge " ++ e.text ++ " refers to a node it does not create"))
  | none => pure ()
  build (.values v) [] v.schema .graph

/-- The fields with the given names. -/
def yieldFields (full : Schema) : List String → Except Error Schema
  | [] => .ok []
  | item :: items =>
    match full.find? item with
    | some (_, field) => do return field :: (← yieldFields full items)
    | none => .error (.unboundVariable item)

/-- Calls a catalog procedure; none of them takes arguments. -/
def call (c : ProcedureCall) : Except Error Plan :=
  match procedureSchema? c.procedure with
  | none => .error (.unsupportedProcedure c.procedure)
  | some full => do
    require c.arguments.isEmpty (.typeMismatch "no arguments" s!"{c.arguments.length} arguments")
    let schema ← if c.yieldAll || c.yieldItems.isEmpty then pure full
      else yieldFields full c.yieldItems
    build (.call c) [] schema .graph

/-- Changes the model of the inputs. The schema is the caller's, since it does not follow from the
inputs. -/
def transform (inputs : List Plan) (schema : Schema) (c : Conversion) : Except Error Plan := do
  require (!inputs.isEmpty) (.invalidPlan "transform needs at least one input")
  require (c.names.isEmpty || c.names.length = inputs.length)
    (.invalidPlan s!"transform has {inputs.length} inputs but {c.names.length} names")
  match inputs.find? (·.model ≠ c.source) with
  | some child => throw (.modelMismatch c.source child.model)
  | none => pure ()
  build (.transform c) inputs schema c.target

/-- Sorts, then leaves out the first `offset` rows, then keeps at most `limit`. -/
def sort (input : Plan) (keys : List SortKey) (offset limit : Option Nat) :
    Except Error Plan := do
  let width := input.schema.length
  match keys.find? (width ≤ ·.index) with
  | some key =>
    throw (.invalidPlan s!"sort refers to ${key.index} but input has {width} fields")
  | none => pure ()
  build (.sort keys offset limit) [input] input.schema input.model

end Plan

end QueryPlan
