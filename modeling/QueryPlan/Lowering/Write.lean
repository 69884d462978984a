import QueryPlan.Draft.Combine
import QueryPlan.Lowering.Pattern
import QueryPlan.Lowering.Scalar

/-!
# Lowering writes

`CREATE` binds the nodes and edges of its patterns. `SET` and `REMOVE` queue one update for each
variable: a later item of a variable wraps the update queued for it. `DELETE` queues its variables.
-/

namespace QueryPlan

/-- What a clause is about to create. -/
structure Creation where
  nodes : List KeyedNode
  edges : List BoundEdge

/-- A node to create. A variable of the input is only referred to. -/
def createNode (scope : Schema) (n : Nat) (p : NodePattern) : Except Error (KeyedNode × Nat) :=
  match p.var with
  | some name =>
    if (scope.indexOf? name).isSome && (!p.labels.isEmpty || !p.properties.isEmpty) then
      .error (.unsupportedOperation
        (name ++ " is already bound and cannot be redeclared with labels or properties"))
    else p.toNode n
  | none => p.toNode n

/-- A relationship to create between two nodes, from its source to its target. -/
def createEdge (p : EdgePattern) (left right : String) : Except Error BoundEdge := do
  let (source, target) ← match p.direction with
    | .outgoing => pure (left, right)
    | .incoming => pure (right, left)
    | .undirected =>
      throw (.unsupportedOperation "relationships must be directed in CREATE")
  require (p.types.length = 1)
    (.unsupportedOperation
      s!"relationships need exactly one type in CREATE, found {p.types.length}")
  require p.range.isNone
    (.unsupportedOperation "variable-length relationships cannot be created")
  let properties ← literalProperties p.properties
  return ⟨p.var, .single p.types properties source target .outgoing p.var, source, target⟩

/-- What a pattern creates, and the counter after it. -/
def createPattern (scope : Schema) (n : Nat) (p : Pattern) : Except Error (Creation × Nat) := do
  require p.var.isNone (.unsupportedOperation "named paths in CREATE are not supported")
  require (p.edges.length ≤ 1)
    (.unsupportedOperation "CREATE supports at most one relationship per path")
  let (left, n) ← createNode scope n p.source
  match p.edges with
  | [] => return (⟨[left], []⟩, n)
  | edge :: _ =>
    let (right, n) ← createNode scope n edge.target
    let bound ← createEdge edge left.key right.key
    return (⟨[left, right], [bound]⟩, n)

/-- What patterns create, and the counter after them. -/
def createPatterns (scope : Schema) (n : Nat) : List Pattern → Except Error (Creation × Nat)
  | [] => .ok (⟨[], []⟩, n)
  | p :: ps => do
    let (first, n) ← createPattern scope n p
    let (rest, n) ← createPatterns scope n ps
    return (⟨first.nodes ++ rest.nodes, first.edges ++ rest.edges⟩, n)

/-- The update that an item makes of a target. -/
def SetItem.update (scope : Schema) (item : SetItem) (target : Expr) : Except Error Expr :=
  match item with
  | property _ key value => do
    let v ← value.toExpr scope
    Expr.call .setProperty [target, .ofString key, v]
  | replace _ value => do
    let v ← value.toExpr scope
    Expr.call .setProperties [target, v, .ofValue (.bool true)]
  | merge _ value => do
    let v ← value.toExpr scope
    Expr.call .setProperties [target, v, .ofValue (.bool false)]
  | labels _ added =>
    if target.ty = .edge && added.length ≠ 1 then
      .error (.unsupportedOperation "edges require exactly one label")
    else Expr.call .setLabels [target, .ofStrings added]

/-- The update that an item makes of a target. -/
def RemoveItem.update (item : RemoveItem) (target : Expr) : Except Error Expr :=
  match item with
  | property _ key => Expr.call .removeProperty [target, .ofString key]
  | labels _ removed => Expr.call .removeLabels [target, .ofStrings removed]

/-- Queues an update of a variable at the end. It wraps the update queued for the variable before,
or else the variable's field. -/
def queueUpdate (scope : Schema) (queue : List (Option String × Expr)) (name : String)
    (update : Expr → Except Error Expr) : Except Error (List (Option String × Expr)) :=
  match Drafting.takeNamed name queue with
  | some (queued, others) => do
    let e ← update queued
    return others ++ [(some name, e)]
  | none => do
    let field ← scope.lookup name
    let e ← update field
    return queue ++ [(some name, e)]

/-- Queues the updates of `SET` items in order. -/
def queueSets (scope : Schema) (queue : List (Option String × Expr)) :
    List SetItem → Except Error (List (Option String × Expr))
  | [] => .ok queue
  | item :: items => do
    let queue ← queueUpdate scope queue item.var (item.update scope)
    queueSets scope queue items

/-- Queues the updates of `REMOVE` items in order. -/
def queueRemoves (scope : Schema) (queue : List (Option String × Expr)) :
    List RemoveItem → Except Error (List (Option String × Expr))
  | [] => .ok queue
  | item :: items => do
    let queue ← queueUpdate scope queue item.var item.update
    queueRemoves scope queue items

/-- Queues the variables to delete, each once. -/
def queueDeletes (scope : Schema) (queue : List (Option String × Expr)) :
    List String → Except Error (List (Option String × Expr))
  | [] => .ok queue
  | name :: names => do
    let target ← scope.lookup name
    require (target.ty.isGraphElement || target.ty.isDynamic)
      (.mismatch "node, edge or path" target.ty)
    if queue.any (·.1 = some name) then queueDeletes scope queue names
    else queueDeletes scope (queue ++ [(some name, target)]) names

end QueryPlan
