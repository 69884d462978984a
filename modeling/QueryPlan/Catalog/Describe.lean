import QueryPlan.Catalog
import QueryPlan.Text.Quoted

/-!
# Descriptions of catalog entries

A description shows every part of a thing on one line, for whoever looks for a fault.
-/

namespace QueryPlan

/-- A thing with named parts. -/
def describeRecord (name : String) (parts : List (String × String)) : String :=
  name ++ " \x7b " ++ ", ".intercalate (parts.map fun (key, text) => key ++ ": " ++ text) ++ " \x7d"

def Ty.describe : Ty → String
  | any => "Any"
  | null => "Null"
  | bool => "Bool"
  | int64 => "Int64"
  | float64 => "Float64"
  | string => "String"
  | list element => "List(" ++ element.describe ++ ")"
  | map => "Map"
  | document => "Document"
  | node => "Node"
  | edge => "Edge"
  | path => "Path"
  | graph => "Graph"

def Model.describe : Model → String
  | relational => "Relational"
  | document => "Document"
  | graph => "Graph"

def Field.describe (f : Field) : String :=
  describeRecord "Field" [("name", Text.quote f.name), ("ty", f.ty.describe)]

def NamespaceId.describe (id : NamespaceId) : String := s!"NamespaceId({id.index.toNat})"

def EntityId.describe (id : EntityId) : String := s!"EntityId({id.index.toNat})"

def Entity.describe (e : Entity) : String :=
  describeRecord "EntityRef" [("id", e.id.describe), ("name", Text.quote e.name),
    ("namespace", e.home.describe), ("model", e.model.describe),
    ("columns", "[" ++ ", ".intercalate (e.columns.map Field.describe) ++ "]")]

end QueryPlan
