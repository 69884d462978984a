import QueryPlan.Model
import QueryPlan.Schema

/-!
# Catalogs

A catalog lists namespaces and the entities stored in them: graphs, collections of documents, and
tables. Numbers of namespaces and entities are words of 64 bits.
-/

namespace QueryPlan

structure NamespaceId where
  index : UInt64
deriving DecidableEq, Repr

def NamespaceId.text (id : NamespaceId) : String := "ns" ++ toString id.index.toNat

structure EntityId where
  index : UInt64
deriving DecidableEq, Repr

def EntityId.text (id : EntityId) : String := "e" ++ toString id.index.toNat

/-- A stored graph, collection or table. Only tables have columns of their own. -/
structure Entity where
  id : EntityId
  name : String
  home : NamespaceId
  model : Model
  columns : List Field
deriving DecidableEq, Repr

namespace Entity

def text (e : Entity) : String := e.id.text ++ ":" ++ e.name

/-- What a full scan yields: a graph is one field `graph`, a collection one document field `d`, a
table its columns. -/
def schema (e : Entity) : Schema :=
  match e.model with
  | .graph => .single "graph" .graph
  | .document => .single "d" .document
  | .relational => e.columns

end Entity

structure Namespace where
  id : NamespaceId
  name : String
  model : Model
deriving DecidableEq, Repr

structure Catalog where
  namespaces : List Namespace
  entities : List Entity
deriving DecidableEq, Repr

namespace Catalog

def empty : Catalog := ⟨[], []⟩

/-- The first graph of a namespace. -/
def graph? (c : Catalog) (ns : NamespaceId) : Option Entity :=
  c.entities.find? fun e => e.home = ns && e.model = .graph

def findNamespace? (c : Catalog) (ns : NamespaceId) : Option Namespace :=
  c.namespaces.find? (·.id = ns)

/-- The entities of a namespace, in catalog order. -/
def entitiesOf (c : Catalog) (ns : NamespaceId) : List Entity :=
  c.entities.filter (·.home = ns)

def entity? (c : Catalog) (id : EntityId) : Option Entity :=
  c.entities.find? (·.id = id)

/-- Adds a namespace numbered by how many there are already. -/
def addNamespace (c : Catalog) (name : String) (model : Model) : NamespaceId × Catalog :=
  let id : NamespaceId := ⟨c.namespaces.length.toUInt64⟩
  (id, { c with namespaces := c.namespaces ++ [⟨id, name, model⟩] })

/-- One above the greatest number in use, as a word of 64 bits; numbers start at one. After the
greatest word comes zero, as in a build without checks of overflow; a build with such checks stops
there instead. -/
def nextEntityId (c : Catalog) : EntityId :=
  ⟨c.entities.foldl (fun greatest e => max greatest e.id.index) 0 + 1⟩

/-- Adds an entity under the next free number. -/
def addEntity (c : Catalog) (home : NamespaceId) (name : String) (model : Model)
    (columns : List Field) : Entity × Catalog :=
  let e : Entity := ⟨c.nextEntityId, name, home, model, columns⟩
  (e, { c with entities := c.entities ++ [e] })

def addGraph (c : Catalog) (home : NamespaceId) (name : String) : Entity × Catalog :=
  c.addEntity home name .graph []

def addCollection (c : Catalog) (home : NamespaceId) (name : String) : Entity × Catalog :=
  c.addEntity home name .document []

def addTable (c : Catalog) (home : NamespaceId) (name : String) (columns : List Field) :
    Entity × Catalog :=
  c.addEntity home name .relational columns

/-- One graph namespace `public` that holds a graph named `graph`. -/
def withDefaultGraph : Catalog :=
  let (ns, c) := empty.addNamespace "public" .graph
  (c.addGraph ns "graph").2

end Catalog

end QueryPlan
