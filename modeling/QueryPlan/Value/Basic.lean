import QueryPlan.Binary64.Basic
import QueryPlan.Ty

/-!
# Values

A value is a scalar, a list, a map, or a piece of a graph: a node, an edge, or a path. Pieces of a
graph name each other by the variables of the pattern they come from.

Properties are kept sorted by key, each key once.
-/

namespace QueryPlan

/-- Which way an edge points, relative to the order in which its ends are written. -/
inductive Direction
  | outgoing
  | incoming
  | undirected
deriving DecidableEq, Repr

/-- A node with properties of type `α`. A placeholder stands for the node that its variable is bound
to elsewhere. A node without variable may have a key by which edges refer to it. -/
structure NodeOf (α : Type) where
  labels : List String
  properties : List (String × α)
  var : Option String
  key : Option String
  placeholder : Bool

/-- An edge with properties of type `α`, between the ends named `source` and `target`. -/
structure EdgeOf (α : Type) where
  labels : List String
  properties : List (String × α)
  source : String
  target : String
  direction : Direction
  var : Option String
  minHops : Nat
  /-- `none` for no upper bound. -/
  maxHops : Option Nat

/-- A path: its nodes, and the edges between one node and the next. -/
structure PathOf (α : Type) where
  nodes : List (NodeOf α)
  edges : List (EdgeOf α)
  var : Option String

inductive Value
  | null
  | bool (b : Bool)
  | int (i : Int64)
  | float (x : Binary64)
  | string (s : String)
  | list (items : List Value)
  | map (entries : List (String × Value))
  | node (n : NodeOf Value)
  | edge (e : EdgeOf Value)
  | path (p : PathOf Value)

abbrev Node := NodeOf Value

abbrev Edge := EdgeOf Value

abbrev Path := PathOf Value

/-- Properties by key. -/
abbrev Properties := List (String × Value)

namespace Properties

/-- Sets a property; the keys stay sorted. -/
def insert (key : String) (value : Value) : Properties → Properties
  | [] => [(key, value)]
  | (k, v) :: rest =>
    if key < k then (key, value) :: (k, v) :: rest
    else if key = k then (key, value) :: rest
    else (k, v) :: insert key value rest

/-- Sets properties from left to right, so of two with one key the last stays. -/
def ofList (entries : List (String × Value)) : Properties :=
  entries.foldl (fun acc (key, value) => insert key value acc) []

end Properties

namespace Value

mutual

/-- The type of a value; a list's elements have the least type that covers them all. -/
def ty : Value → Ty
  | null => .null
  | bool _ => .bool
  | int _ => .int64
  | float _ => .float64
  | string _ => .string
  | list items => .list (.common (types items))
  | map _ => .map
  | node _ => .node
  | edge _ => .edge
  | path _ => .path

def types : List Value → List Ty
  | [] => []
  | v :: vs => v.ty :: types vs

end

def string? : Value → Option String
  | string s => some s
  | _ => none

def isNull : Value → Bool
  | null => true
  | _ => false

end Value

namespace NodeOf

/-- A node as a pattern writes it. -/
def ofPattern (labels : List String) (properties : Properties) (var : Option String) : Node :=
  ⟨labels, properties, var, none, false⟩

/-- Stands for the node that `var` is bound to. -/
def standIn (var : String) : Node := ⟨[], [], some var, none, true⟩

/-- The name by which edges refer to a node. -/
def endpoint? {α : Type} (n : NodeOf α) : Option String := n.var.or n.key

end NodeOf

namespace EdgeOf

/-- An edge of a single hop. -/
def single (labels : List String) (properties : Properties) (source target : String)
    (direction : Direction) (var : Option String) : Edge :=
  ⟨labels, properties, source, target, direction, var, 1, some 1⟩

def isSingleHop {α : Type} (e : EdgeOf α) : Bool := e.minHops = 1 && e.maxHops = some 1

end EdgeOf

namespace PathOf

variable {α : Type}

/-- The type of the element that a path binds to a name: the path itself comes first, then its
nodes, then its edges. -/
def elementTy? (p : PathOf α) (name : String) : Option Ty :=
  if p.var = some name then some .path
  else if p.nodes.any (·.var = some name) then some .node
  else if p.edges.any (·.var = some name) then some .edge
  else none

/-- The variables of a path in the order they are written: each node, then the edge after it. -/
def interleave : List (NodeOf α) → List (EdgeOf α) → List (Option String × Ty)
  | [], _ => []
  | n :: ns, [] => (n.var, .node) :: interleave ns []
  | n :: ns, e :: es => (n.var, .node) :: (e.var, .edge) :: interleave ns es

/-- Keeps the entries with a name, each name once, at its first place. -/
def firstNamed (entries : List (Option String × Ty)) : List (String × Ty) :=
  entries.foldl (fun acc (name, ty) =>
    match name with
    | some name => if acc.any (·.1 = name) then acc else acc ++ [(name, ty)]
    | none => acc) []

/-- The named elements of a path as written, the path's own name last; a repeated name counts where
it first stands. -/
def namedElements (p : PathOf α) : List (String × Ty) :=
  firstNamed (interleave p.nodes p.edges ++ [(p.var, .path)])

end PathOf

end QueryPlan
