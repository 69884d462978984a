import QueryPlan.Draft.Basic

/-!
# Combining what is queued into a node

Each action takes what a clause has queued or bound and makes one node of it, on top of the stack.
Guards come first: one scans the graph if nothing has been produced yet, one computes queued
expressions before they are filtered on.
-/

namespace QueryPlan

/-- The name of the `n`-th expression without a name. -/
def exprName (n : Nat) : String := s!"EXPR${n}"

/-- Gives the nameless entries names, counting from `n`. -/
def fillNames : Nat → List (Option String × Expr) → List Column
  | _, [] => []
  | n, (some name, e) :: rest => ⟨some name, e⟩ :: fillNames n rest
  | n, (none, e) :: rest => ⟨some (exprName n), e⟩ :: fillNames (n + 1) rest

/-- A named reference to each field of a schema, numbered from `start`. -/
def Schema.namedRefs (start : Nat) : Schema → List (Option String × Expr)
  | [] => []
  | f :: fs => (some f.name, .ref start f.ty) :: Schema.namedRefs (start + 1) fs

/-- Adds the bindings whose names are not taken; an unnamed one is a fault. -/
def extendBindings (bound : List Binding) : List (Option String × Expr) →
    Except Error (List Binding)
  | [] => .ok bound
  | (none, _) :: _ => .error (.internal "unnamed pattern element")
  | (some name, e) :: rest =>
    if bound.any (·.name = name) then extendBindings bound rest
    else extendBindings (bound ++ [⟨name, e⟩]) rest

/-- The literals of the nodes that the input does not have, named by variable or by count. -/
def newNodes (schema : Schema) : Nat → List (String × Node) → List Column × Nat
  | n, [] => ([], n)
  | n, (key, node) :: rest =>
    if (schema.indexOf? key).isSome then newNodes schema n rest
    else
      match node.var with
      | some var =>
        let (columns, m) := newNodes schema n rest
        (⟨some var, .ofValue (.node node)⟩ :: columns, m)
      | none =>
        let (columns, m) := newNodes schema (n + 1) rest
        (⟨some (exprName n), .ofValue (.node node)⟩ :: columns, m)

/-- A reference to a field of the input. -/
def fieldRef (schema : Schema) (index : Nat) : Except Error Expr :=
  match schema[index]? with
  | some field => .ok (.ref index field.ty)
  | none => .error (.internal s!"no upstream field ${index}")

/-- The two ends of a new edge, by the case it is in. -/
def EndpointCase.ends (schema : Schema) (edge : BoundEdge) :
    EndpointCase → Except Error (Expr × Expr)
  | bothInput left right => do return (← fieldRef schema left, ← fieldRef schema right)
  | bothNew =>
    .ok (.ofValue (.node (.standIn edge.left)), .ofValue (.node (.standIn edge.right)))
  | leftInput left => do
    return (← fieldRef schema left, .ofValue (.node (.standIn edge.right)))
  | rightInput right => do
    return (.ofValue (.node (.standIn edge.left)), ← fieldRef schema right)

/-- The new edges, attached to their ends, named by variable or by count. -/
def newEdges (schema : Schema) : Nat → List BoundEdge → Except Error (List Column)
  | _, [] => .ok []
  | n, bound :: rest => do
    let ends ← (EndpointCase.classify schema bound).ends schema bound
    let call ← Expr.call .adjustEdge [.ofValue (.edge bound.edge), ends.1, ends.2]
    match bound.name with
    | some name => return ⟨some name, call⟩ :: (← newEdges schema n rest)
    | none => return ⟨some (exprName n), call⟩ :: (← newEdges schema (n + 1) rest)

/-- The new nodes followed by the new edges. -/
def newElements (schema : Schema) (nodes : List (String × Node)) (edges : List BoundEdge) :
    Except Error (List Column) := do
  let (columns, n) := newNodes schema 0 nodes
  return columns ++ (← newEdges schema n edges)

namespace Drafting

/-- Scans the graph if nothing has been produced yet. -/
def defaultScan : Drafting Unit := do
  let d ← get
  if d.stack.isEmpty then
    match d.source with
    | .entity entity => push (← lift (Plan.scan entity))
    | .substitution home labels => push (← lift (Plan.substitutionScan d.catalog home labels))

/-- Computes the queued expressions if the top of the stack is still the bare graph, and queues
references to the results instead. -/
def projectIfBare : Drafting Unit := do
  let d ← get
  if d.scope.isSingle .graph && !d.pending.isEmpty then
    let input ← pop
    let queued ← drain
    let project ← lift (Plan.projectColumns input (fillNames 0 queued))
    modify fun d => { d with pending := project.schema.namedRefs 0 }
    push project

/-- What patterns are matched against, and what is bound there already. A match on top of the stack
is taken apart, so that it can be made again with more bindings. -/
def matchBase (top : Plan) : Except Error (Plan × List Binding) :=
  match top.op with
  | .bind bindings =>
    match top.inputs with
    | input :: _ => .ok (input, bindings)
    | [] => .error (.internal "match without input")
  | _ =>
    if top.schema.isSingle .graph then .ok (top, [])
    else .error (.unsupportedOperation ("MATCH after " ++ top.kind ++ " is not supported"))

/-- Binds the queued pattern calls. A variable bound before keeps its first binding. -/
def combineMatch : Drafting Unit := do
  defaultScan
  let top ← pop
  if top.model ≠ .graph then
    throw (.unsupportedInput ("MATCH requires a GRAPH input, found " ++ top.model.text))
  let (input, bound) ← lift (matchBase top)
  let queued ← drain
  let bindings ← lift (extendBindings bound queued)
  push (← lift (Plan.patternMatch input (bindings.map Binding.expr) (bindings.map Binding.name)))
  clearBound

/-- The conjunction of the predicates. -/
def conjunction : List Expr → Except Error Expr
  | [] => .error (.emptyOperation "filter without predicate")
  | [p] => .ok p
  | ps => Expr.call .and ps

/-- Filters by the queued predicates. -/
def combineFilter : Drafting Unit := do
  let d ← get
  match d.stack.length with
  | 0 => throw (.unsupportedInput "filter has no input")
  | 1 => pure ()
  | n => throw (.internal s!"filter over {n} stacked plans")
  projectIfBare
  let queued ← drain
  let condition ← lift (conjunction (queued.map Prod.snd))
  let input ← pop
  push (← lift (Plan.filter input condition))
  clearBound

/-- Inserts the bound nodes and edges: over an input they are computed for each of its rows, without
one they are written out. -/
def combineValues : Drafting Unit := do
  let d ← get
  if d.nodes.isEmpty && d.edges.isEmpty then throw (.emptyOperation "nothing to create")
  let entity ← lift d.target
  clearBound
  let input ← match d.stack with
    | [] => lift (Plan.values ⟨d.nodes.map Prod.snd, d.edges.map BoundEdge.edge, [], []⟩)
    | top :: rest => do
      modify fun d => { d with stack := rest }
      let columns ← lift (newElements top.schema d.nodes d.edges)
      lift (Plan.projectColumns top columns)
  push (← lift (Plan.modify entity input .insert [] []))
  clearBound

/-- The names and expressions of the targets of a write; an unnamed one is a fault. -/
def targetsOf : List (Option String × Expr) → Except Error (List Binding)
  | [] => .ok []
  | (none, _) :: _ => .error (.internal "unnamed modify target")
  | (some name, e) :: rest => do return ⟨name, e⟩ :: (← targetsOf rest)

/-- Writes the queued targets. -/
def combineModify (write : Write) : Drafting Unit := do
  let d ← get
  if d.pending.isEmpty then
    throw (.emptyOperation ("empty " ++ Text.lower write.text ++ " is not permitted"))
  let entity ← lift d.target
  let input ← pop
  let queued ← drain
  let targets ← lift (targetsOf queued)
  push (← lift (Plan.modify entity input write (targets.map Binding.name)
    (targets.map Binding.expr)))
  clearBound

end Drafting

/-- The finished plan and its kind. One plan must be left, and nothing queued or bound. -/
def Draft.finish (d : Draft) : Except Error (Plan × QueryKind) := do
  require d.pending.isEmpty (.internal s!"{d.pending.length} expressions left unconsumed")
  require (d.nodes.isEmpty && d.edges.isEmpty) (.internal "pattern elements left unconsumed")
  match d.stack with
  | [] => throw (.invalidPlan "query produced no plan")
  | [root] => return (root, d.kind.getD .select)
  | stack => throw (.internal s!"{stack.length} plans left on the stack")

end QueryPlan
