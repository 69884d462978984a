import QueryPlan.Bridge

/-!
# Drafts

A draft is a plan under construction: a stack of finished plans, a queue of expressions that wait
for the next node, the nodes and edges that a clause is about to create, and the kind of query found
so far. Steps on a draft may fail; a failed step leaves the draft as far as it came.
-/

namespace QueryPlan

/-- What a query reads when no clause has produced anything yet. -/
inductive GraphSource
  /-- The namespace's own graph. -/
  | entity (entity : Entity)
  /-- A graph made up from the entities that the labels name, or from all if there are none. -/
  | substitution (home : NamespaceId) (labels : List String)
deriving DecidableEq, Repr

/-- The graph of a namespace, or, if it has none and that is allowed, a made-up one. -/
def GraphSource.resolve (catalog : Catalog) (home : NamespaceId) (allowSubstitution : Bool)
    (labels : List String) : Except Error GraphSource :=
  match catalog.graph? home with
  | some graph => .ok (.entity graph)
  | none =>
    if allowSubstitution && (catalog.findNamespace? home).isSome then
      .ok (.substitution home labels)
    else .error (.unknownEntity ("no graph in namespace " ++ home.text))

/-- An edge to be created between the nodes known as `left` and `right`. -/
structure BoundEdge where
  name : Option String
  edge : Edge
  left : String
  right : String

/-- Where the ends of a new edge come from: a field of the input, or the clause itself. -/
inductive EndpointCase
  | bothInput (left right : Nat)
  | bothNew
  | leftInput (left : Nat)
  | rightInput (right : Nat)
deriving DecidableEq, Repr

/-- Looks the ends of an edge up in the input's schema. -/
def EndpointCase.classify (schema : Schema) (edge : BoundEdge) : EndpointCase :=
  match schema.indexOf? edge.left, schema.indexOf? edge.right with
  | some left, some right => .bothInput left right
  | none, none => .bothNew
  | some left, none => .leftInput left
  | none, some right => .rightInput right

structure Draft where
  catalog : Catalog
  source : GraphSource
  /-- Top first. -/
  stack : List Plan
  /-- Expressions for the next node, oldest first. -/
  pending : List (Option String × Expr)
  /-- Nodes to create by key, oldest first. -/
  nodes : List (String × Node)
  edges : List BoundEdge
  kind : Option QueryKind
  /-- How many keys have been made up for nodes without a variable. -/
  anonymous : Nat

/-- A step that may change a draft and may fail. -/
abbrev Drafting := EStateM Error Draft

namespace Draft

def empty (catalog : Catalog) (source : GraphSource) : Draft :=
  ⟨catalog, source, [], [], [], [], none, 0⟩

/-- The schema that the expressions of the next clause refer to. -/
def scope (d : Draft) : Schema := (d.stack.head?.map Plan.schema).getD []

def hasPending (d : Draft) (name : String) : Bool := d.pending.any (·.1 = some name)

/-- Whether a node is to be created under a key. -/
def isBound (d : Draft) (key : String) : Bool := d.nodes.any (·.1 = key)

/-- The key made up for the `n`-th node without a variable. -/
def anonymousKey (n : Nat) : String := s!"_anon{n}"

/-- The entity that a write goes to. -/
def target (d : Draft) : Except Error Entity :=
  match d.source with
  | .entity entity => .ok entity
  | .substitution home _ =>
    .error (.unsupportedOperation
      ("cannot modify the substitution graph of namespace " ++ home.text))

end Draft

namespace Drafting

/-- Takes over the outcome of a computation that does not touch the draft. -/
def lift {α : Type} (x : Except Error α) : Drafting α :=
  match x with
  | .ok a => pure a
  | .error e => throw e

/-- Sets the kind of the query. -/
def setKind (kind : QueryKind) : Drafting Unit :=
  modify fun d => { d with kind := some kind }

/-- Sets the kind of the query unless it is set. -/
def setKindIfUnset (kind : QueryKind) : Drafting Unit :=
  modify fun d => { d with kind := d.kind.or (some kind) }

/-- A new key for a node without a variable. -/
def nextAnonymous : Drafting String := do
  let d ← get
  set { d with anonymous := d.anonymous + 1 }
  return Draft.anonymousKey d.anonymous

def push (p : Plan) : Drafting Unit :=
  modify fun d => { d with stack := p :: d.stack }

def pop : Drafting Plan := do
  let d ← get
  match d.stack with
  | p :: rest =>
    set { d with stack := rest }
    return p
  | [] => throw (.unsupportedInput "clause has no input")

/-- Queues an expression for the next node. -/
def add (name : Option String) (e : Expr) : Drafting Unit :=
  modify fun d => { d with pending := d.pending ++ [(name, e)] }

/-- The first queued expression under a name, and the queue without it. -/
def takeNamed (name : String) :
    List (Option String × Expr) → Option (Expr × List (Option String × Expr))
  | [] => none
  | (n, e) :: rest =>
    if n = some name then some (e, rest)
    else (takeNamed name rest).map fun (found, others) => (found, (n, e) :: others)

/-- Takes the first queued expression under a name out of the queue. -/
def takePending (name : String) : Drafting (Option Expr) := do
  let d ← get
  match takeNamed name d.pending with
  | some (e, rest) =>
    set { d with pending := rest }
    return some e
  | none => return none

/-- Empties the queue and gives what it held. -/
def drain : Drafting (List (Option String × Expr)) := do
  let d ← get
  set { d with pending := [] }
  return d.pending

/-- Has a node created under a key; a key in use keeps its node. Says whether the node was taken. -/
def bindNode (key : String) (node : Node) : Drafting Bool := do
  let d ← get
  if d.isBound key then return false
  else
    set { d with nodes := d.nodes ++ [(key, node)] }
    return true

def bindEdge (edge : BoundEdge) : Drafting Unit :=
  modify fun d => { d with edges := d.edges ++ [edge] }

/-- Forgets the nodes and edges to create. -/
def clearBound : Drafting Unit :=
  modify fun d => { d with nodes := [], edges := [] }

end Drafting

end QueryPlan
