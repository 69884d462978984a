import QueryPlan.Draft.Basic
import QueryPlan.Expr.Typing
import QueryPlan.Query.Clause

/-!
# Lowering patterns

A pattern becomes a path literal. A node without a variable gets a key made up from a counter, by
which its edges refer to it; the counter runs on over all patterns of a query. A `MATCH` binds each
named element of its paths by one pattern call, at the name's first place.
-/

namespace QueryPlan

/-- The values of properties, which must be literals. -/
def literalEntries : List (String × Expression) → Except Error (List (String × Value))
  | [] => .ok []
  | (key, e) :: rest =>
    match e.literalValue? with
    | some v => do return (key, v) :: (← literalEntries rest)
    | none =>
      .error (.unsupportedOperation
        ("pattern property " ++ key ++ " must be a literal, found " ++ e.text))

def literalProperties (entries : List (String × Expression)) : Except Error Properties := do
  return .ofList (← literalEntries entries)

/-- A node literal and the name by which edges refer to it. -/
structure KeyedNode where
  key : String
  node : Node

/-- The literal of a node pattern, and the counter after it. -/
def NodePattern.toNode (n : Nat) (p : NodePattern) : Except Error (KeyedNode × Nat) := do
  let properties ← literalProperties p.properties
  match p.var with
  | some name => return (⟨name, .ofPattern p.labels properties (some name)⟩, n)
  | none =>
    let key := Draft.anonymousKey n
    return (⟨key, { NodeOf.ofPattern p.labels properties none with key := some key }⟩, n + 1)

/-- The literal of a relationship between two nodes. -/
def EdgePattern.toEdge (p : EdgePattern) (left right : String) : Except Error Edge := do
  let properties ← literalProperties p.properties
  let edge := EdgeOf.single p.types properties left right p.direction p.var
  match p.range with
  | some range => return { edge with minHops := range.least.getD 1, maxHops := range.most }
  | none => return edge

/-- The edges of a path and the nodes they lead to, from the node known as `left` on. -/
def EdgePattern.toSteps (n : Nat) (left : String) :
    List EdgePattern → Except Error (List (Edge × Node) × Nat)
  | [] => .ok ([], n)
  | p :: ps => do
    let (right, n) ← p.target.toNode n
    let edge ← p.toEdge left right.key
    let (rest, n) ← EdgePattern.toSteps n right.key ps
    return ((edge, right.node) :: rest, n)

/-- The path literal of a pattern, and the counter after it. -/
def Pattern.toPath (n : Nat) (p : Pattern) : Except Error (Path × Nat) := do
  let (first, n) ← p.source.toNode n
  let (steps, n) ← EdgePattern.toSteps n first.key p.edges
  return (⟨first.node :: steps.map Prod.snd, steps.map Prod.fst, p.var⟩, n)

/-- The call that binds a named element of a path. -/
def elementCall (path : Path) (name : String) : Except Error Expr :=
  Expr.call .patternMatch [.ref 0 .graph, .ofValue (.path path), .ofString name]

/-- The calls for the named elements of a path whose names are not taken. -/
def elementCalls (path : Path) (taken : List String) : List String → Except Error (List Binding)
  | [] => .ok []
  | name :: names =>
    if taken.contains name then elementCalls path taken names
    else do
      let call ← elementCall path name
      let rest ← elementCalls path taken names
      return ⟨name, call⟩ :: rest

/-- The calls for the named elements of patterns, and the counter after them. -/
def patternCalls (n : Nat) (taken : List String) :
    List Pattern → Except Error (List Binding × Nat)
  | [] => .ok ([], n)
  | p :: ps => do
    let (path, n) ← p.toPath n
    let calls ← elementCalls path taken (path.namedElements.map Prod.fst)
    let (rest, n) ← patternCalls n (taken ++ calls.map Binding.name) ps
    return (calls ++ rest, n)

/-- Texts without repetition, each at its first place. -/
def firstSeen (items : List String) : List String :=
  items.foldl (fun seen item => if seen.contains item then seen else seen ++ [item]) []

/-- The node labels that a query mentions, in the order they are first seen. -/
def mentionedLabels (clauses : List Clause) : List String :=
  firstSeen (((clauses.flatMap Clause.patterns).flatMap Pattern.nodes).flatMap NodePattern.labels)

end QueryPlan
