import QueryPlan.Value.Basic

/-!
# Equality of values

Values are compared part by part; numbers as numbers, so the two zeros are equal and what is not a
number equals nothing, not even itself.
-/

namespace QueryPlan.Value

mutual

def equal : Value → Value → Bool
  | null, null => true
  | bool a, bool b => a == b
  | int a, int b => a == b
  | float a, float b => a == b
  | string a, string b => a == b
  | list a, list b => equalList a b
  | map a, map b => equalEntries a b
  | node a, node b => equalNode a b
  | edge a, edge b => equalEdge a b
  | path a, path b => equalPath a b
  | _, _ => false

def equalList : List Value → List Value → Bool
  | [], [] => true
  | a :: as, b :: bs => a.equal b && equalList as bs
  | _, _ => false

def equalEntries : List (String × Value) → List (String × Value) → Bool
  | [], [] => true
  | (k, a) :: as, (l, b) :: bs => k == l && a.equal b && equalEntries as bs
  | _, _ => false

def equalNode : NodeOf Value → NodeOf Value → Bool
  | ⟨labels, properties, var, key, placeholder⟩, b =>
    labels == b.labels && equalEntries properties b.properties && var == b.var && key == b.key &&
      placeholder == b.placeholder

def equalEdge : EdgeOf Value → EdgeOf Value → Bool
  | ⟨labels, properties, source, target, direction, var, minHops, maxHops⟩, b =>
    labels == b.labels && equalEntries properties b.properties && source == b.source &&
      target == b.target && direction == b.direction && var == b.var && minHops == b.minHops &&
      maxHops == b.maxHops

def equalNodes : List (NodeOf Value) → List (NodeOf Value) → Bool
  | [], [] => true
  | a :: as, b :: bs => equalNode a b && equalNodes as bs
  | _, _ => false

def equalEdges : List (EdgeOf Value) → List (EdgeOf Value) → Bool
  | [], [] => true
  | a :: as, b :: bs => equalEdge a b && equalEdges as bs
  | _, _ => false

def equalPath : PathOf Value → PathOf Value → Bool
  | ⟨nodes, edges, var⟩, b => equalNodes nodes b.nodes && equalEdges edges b.edges && var == b.var

end

instance : BEq Value := ⟨equal⟩

end QueryPlan.Value
