import QueryPlan.Json.Read
import QueryPlan.Ty

/-! # Types as JSON -/

namespace QueryPlan.Ty

def toJson : Ty → Json
  | any => .str "Any"
  | null => .str "Null"
  | bool => .str "Bool"
  | int64 => .str "Int64"
  | float64 => .str "Float64"
  | string => .str "String"
  | list element => .tagged "List" element.toJson
  | map => .str "Map"
  | document => .str "Document"
  | node => .str "Node"
  | edge => .str "Edge"
  | path => .str "Path"
  | graph => .str "Graph"

/-- A type that is not made from another, by name. -/
def ofName? : String → Option Ty
  | "Any" => some any
  | "Null" => some null
  | "Bool" => some bool
  | "Int64" => some int64
  | "Float64" => some float64
  | "String" => some string
  | "Map" => some map
  | "Document" => some document
  | "Node" => some node
  | "Edge" => some edge
  | "Path" => some path
  | "Graph" => some graph
  | _ => none

/-- The fuel bounds the depth. -/
def read? : Nat → Json → Option Ty
  | 0, _ => none
  | fuel + 1, j => do
    let (name, content) ← j.variant?
    if name = "List" then list <$> read? fuel content
    else
      let ty ← ofName? name
      content.nothing? ty

def ofJson? (j : Json) : Option Ty := read? (j.depth + 1) j

end QueryPlan.Ty
