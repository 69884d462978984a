import QueryPlan.Catalog
import QueryPlan.Ty.Json

/-! # Catalogs and schemas as JSON -/

namespace QueryPlan

namespace Model

def jsonName : Model → String
  | relational => "Relational"
  | document => "Document"
  | graph => "Graph"

def toJson (m : Model) : Json := .str m.jsonName

def ofJson? : Json → Option Model := Json.oneOf? jsonName [relational, document, graph]

end Model

namespace Field

def toJson (f : Field) : Json := .obj [("name", .str f.name), ("ty", f.ty.toJson)]

def ofJson? (j : Json) : Option Field := do
  let r ← j.record? ["name", "ty"]
  return ⟨← r.get? "name" Json.text?, ← r.get? "ty" Ty.ofJson?⟩

end Field

namespace Schema

def toJson (s : Schema) : Json := .arr (s.map Field.toJson)

def ofJson? (j : Json) : Option Schema := j.each? Field.ofJson?

end Schema

namespace NamespaceId

def toJson (id : NamespaceId) : Json := .ofNat id.index.toNat

def ofJson? (j : Json) : Option NamespaceId := j.nat64?.map fun n => ⟨n.toUInt64⟩

end NamespaceId

namespace EntityId

def toJson (id : EntityId) : Json := .ofNat id.index.toNat

def ofJson? (j : Json) : Option EntityId := j.nat64?.map fun n => ⟨n.toUInt64⟩

end EntityId

namespace Entity

def toJson (e : Entity) : Json :=
  .obj [("id", e.id.toJson), ("name", .str e.name), ("namespace", e.home.toJson),
    ("model", e.model.toJson), ("columns", Schema.toJson e.columns)]

def ofJson? (j : Json) : Option Entity := do
  let r ← j.record? ["id", "name", "namespace", "model", "columns"]
  return ⟨← r.get? "id" EntityId.ofJson?, ← r.get? "name" Json.text?,
    ← r.get? "namespace" NamespaceId.ofJson?, ← r.get? "model" Model.ofJson?,
    ← r.list? "columns" Field.ofJson?⟩

end Entity

namespace Namespace

def toJson (n : Namespace) : Json :=
  .obj [("id", n.id.toJson), ("name", .str n.name), ("model", n.model.toJson)]

def ofJson? (j : Json) : Option Namespace := do
  let r ← j.record? ["id", "name", "model"]
  return ⟨← r.get? "id" NamespaceId.ofJson?, ← r.get? "name" Json.text?,
    ← r.get? "model" Model.ofJson?⟩

end Namespace

namespace Catalog

def toJson (c : Catalog) : Json :=
  .obj [("namespaces", .arr (c.namespaces.map Namespace.toJson)),
    ("entities", .arr (c.entities.map Entity.toJson))]

def ofJson? (j : Json) : Option Catalog := do
  let r ← j.record? ["namespaces", "entities"]
  return ⟨← r.list? "namespaces" Namespace.ofJson?, ← r.list? "entities" Entity.ofJson?⟩

end Catalog

end QueryPlan
