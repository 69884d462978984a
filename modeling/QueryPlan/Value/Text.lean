import QueryPlan.Value.Basic
import QueryPlan.Binary64.Text
import QueryPlan.Text.Quoted

/-!
# The text of values

Values are written as they stand in plans: strings quoted, properties sorted by key, nodes in round
brackets, edges as arrows between the names of their ends, and a path as its nodes followed by its
edges.
-/

namespace QueryPlan

/-- Items one after the other, divided by a comma. -/
def commas (items : List String) : String := ", ".intercalate items

/-- The strokes on the two sides of an edge. -/
def Direction.strokes : Direction → String × String
  | outgoing => ("-", "->")
  | incoming => ("<-", "-")
  | undirected => ("-", "-")

namespace Value

/-- The properties of a node or an edge, given the text of each; nothing if there are none. -/
def propertiesText (entries : List String) : String :=
  if entries.isEmpty then "" else " \x7b" ++ commas entries ++ "\x7d"

/-- What a node is called: its variable, or its key after a number sign. -/
def nodeName (var key : Option String) : String :=
  match var, key with
  | some var, _ => var
  | none, some key => "#" ++ key
  | none, none => ""

/-- The types of an edge: a colon before the first, bars between them. -/
def edgeTypes (labels : List String) : String :=
  if labels.isEmpty then "" else ":" ++ "|".intercalate labels

/-- The bounds on an edge's hops, written only if it is not a single hop. -/
def hopsText (minHops : Nat) (maxHops : Option Nat) : String :=
  if minHops = 1 && maxHops = some 1 then ""
  else
    match maxHops with
    | some maxHops => s!"*{minHops}..{maxHops}"
    | none => s!"*{minHops}.."

mutual

def text : Value → String
  | null => "null"
  | bool b => toString b
  | int i => toString i.toInt
  | float x => x.text .plan
  | string s => Text.quote s
  | list items => "[" ++ commas (texts items) ++ "]"
  | map entries => "\x7b" ++ commas (entryTexts entries) ++ "\x7d"
  | node n => nodeText n
  | edge e => edgeText e
  | path p => pathText p

def texts : List Value → List String
  | [] => []
  | v :: vs => v.text :: texts vs

def entryTexts : List (String × Value) → List String
  | [] => []
  | (key, value) :: rest => (key ++ ": " ++ value.text) :: entryTexts rest

def nodeText : NodeOf Value → String
  | ⟨labels, properties, var, key, placeholder⟩ =>
    "(" ++ (if placeholder then "?" else "") ++ nodeName var key ++
      String.join (labels.map (":" ++ ·)) ++ propertiesText (entryTexts properties) ++ ")"

def edgeText : EdgeOf Value → String
  | ⟨labels, properties, source, target, direction, var, minHops, maxHops⟩ =>
    "(" ++ source ++ ")" ++ direction.strokes.1 ++ "[" ++ var.getD "" ++ edgeTypes labels ++
      hopsText minHops maxHops ++ propertiesText (entryTexts properties) ++ "]" ++
      direction.strokes.2 ++ "(" ++ target ++ ")"

def nodeTexts : List (NodeOf Value) → List String
  | [] => []
  | n :: ns => nodeText n :: nodeTexts ns

def edgeTexts : List (EdgeOf Value) → List String
  | [] => []
  | e :: es => edgeText e :: edgeTexts es

def pathText : PathOf Value → String
  | ⟨nodes, edges, var⟩ =>
    (match var with
      | some var => var ++ " = "
      | none => "") ++
      "<" ++ commas (nodeTexts nodes) ++ String.join ((edgeTexts edges).map (", " ++ ·)) ++ ">"

end

end Value

def NodeOf.text (n : Node) : String := Value.nodeText n

def EdgeOf.text (e : Edge) : String := Value.edgeText e

end QueryPlan
