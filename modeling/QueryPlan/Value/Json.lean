import QueryPlan.Json.Read
import QueryPlan.Value.Basic

/-! # Values as JSON -/

namespace QueryPlan

namespace Direction

def jsonName : Direction → String
  | outgoing => "Outgoing"
  | incoming => "Incoming"
  | undirected => "Undirected"

def toJson (d : Direction) : Json := .str d.jsonName

def ofJson? : Json → Option Direction := Json.oneOf? jsonName [outgoing, incoming, undirected]

end Direction

/-- A number, or null. -/
def Json.ofNat? : Option Nat → Json
  | some n => .ofNat n
  | none => .null

namespace Value

mutual

def toJson : Value → Json
  | null => .str "Null"
  | bool b => .tagged "Bool" (.bool b)
  | int i => .tagged "Int64" (.int i.toInt)
  | float x => .tagged "Float64" (.real x)
  | string s => .tagged "String" (.str s)
  | list items => .tagged "List" (.arr (toJsonAll items))
  | map entries => .tagged "Map" (.obj (toJsonEntries entries))
  | node n => .tagged "Node" (nodeToJson n)
  | edge e => .tagged "Edge" (edgeToJson e)
  | path p => .tagged "Path" (pathToJson p)

def toJsonAll : List Value → List Json
  | [] => []
  | v :: vs => v.toJson :: toJsonAll vs

def toJsonEntries : List (String × Value) → List (String × Json)
  | [] => []
  | (key, value) :: rest => (key, value.toJson) :: toJsonEntries rest

/-- The key is written only if there is one. -/
def nodeToJson : NodeOf Value → Json
  | ⟨labels, properties, var, key, placeholder⟩ =>
    .obj ([("labels", .ofTexts labels), ("properties", .obj (toJsonEntries properties)),
      ("variable", .ofText? var)] ++ key.toList.map (fun key => ("key", .str key)) ++
      [("is_variable", .bool placeholder)])

def edgeToJson : EdgeOf Value → Json
  | ⟨labels, properties, source, target, direction, var, minHops, maxHops⟩ =>
    .obj [("labels", .ofTexts labels), ("properties", .obj (toJsonEntries properties)),
      ("source", .str source), ("target", .str target), ("direction", direction.toJson),
      ("variable", .ofText? var), ("min_hops", .ofNat minHops), ("max_hops", .ofNat? maxHops)]

def nodesToJson : List (NodeOf Value) → List Json
  | [] => []
  | n :: ns => nodeToJson n :: nodesToJson ns

def edgesToJson : List (EdgeOf Value) → List Json
  | [] => []
  | e :: es => edgeToJson e :: edgesToJson es

def pathToJson : PathOf Value → Json
  | ⟨nodes, edges, var⟩ =>
    .obj [("nodes", .arr (nodesToJson nodes)), ("edges", .arr (edgesToJson edges)),
      ("variable", .ofText? var)]

end

/-- Properties, given how their values are read. -/
def readProperties? (value? : Json → Option Value) (j : Json) : Option Properties :=
  (j.dictionary? value?).map Properties.ofList

def readNode? (value? : Json → Option Value) (j : Json) : Option Node := do
  let r ← j.record? ["labels", "properties", "variable", "key", "is_variable"]
  return ⟨← r.get? "labels" (Json.each? Json.text?),
    ← r.get? "properties" (readProperties? value?), ← r.nullable? "variable" Json.text?,
    ← r.opt? "key" Json.text?, ← r.get? "is_variable" Json.bool?⟩

def readEdge? (value? : Json → Option Value) (j : Json) : Option Edge := do
  let r ← j.record? ["labels", "properties", "source", "target", "direction", "variable",
    "min_hops", "max_hops"]
  return ⟨← r.get? "labels" (Json.each? Json.text?),
    ← r.get? "properties" (readProperties? value?), ← r.get? "source" Json.text?,
    ← r.get? "target" Json.text?, ← r.get? "direction" Direction.ofJson?,
    ← r.nullable? "variable" Json.text?, ← r.get? "min_hops" Json.nat32?,
    ← r.nullable? "max_hops" Json.nat32?⟩

def readPath? (value? : Json → Option Value) (j : Json) : Option Path := do
  let r ← j.record? ["nodes", "edges", "variable"]
  return ⟨← r.get? "nodes" (Json.each? (readNode? value?)),
    ← r.get? "edges" (Json.each? (readEdge? value?)), ← r.nullable? "variable" Json.text?⟩

/-- The fuel bounds the depth. -/
def read? : Nat → Json → Option Value
  | 0, _ => none
  | fuel + 1, j => do
    let (name, content) ← j.variant?
    match name with
    | "Null" => content.nothing? null
    | "Bool" => bool <$> content.bool?
    | "Int64" => int <$> content.int64?
    | "Float64" => float <$> content.real?
    | "String" => string <$> content.text?
    | "List" => list <$> content.each? (read? fuel)
    | "Map" => map <$> readProperties? (read? fuel) content
    | "Node" => node <$> readNode? (read? fuel) content
    | "Edge" => edge <$> readEdge? (read? fuel) content
    | "Path" => path <$> readPath? (read? fuel) content
    | _ => none

def ofJson? (j : Json) : Option Value := read? (j.depth + 1) j

end Value

namespace NodeOf

def toJson (n : Node) : Json := Value.nodeToJson n

def ofJson? (j : Json) : Option Node := Value.readNode? Value.ofJson? j

end NodeOf

namespace EdgeOf

def toJson (e : Edge) : Json := Value.edgeToJson e

def ofJson? (j : Json) : Option Edge := Value.readEdge? Value.ofJson? j

end EdgeOf

end QueryPlan
