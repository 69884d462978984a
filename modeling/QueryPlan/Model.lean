import QueryPlan.Text.Quoted

/-!
# Data models

Every stored entity and every part of a plan belongs to one data model.
-/

namespace QueryPlan

inductive Model
  | relational
  | document
  | graph
deriving DecidableEq, Repr

namespace Model

/-- The name a model is written with in plans and messages. -/
def text : Model → String
  | relational => "RELATIONAL"
  | document => "DOCUMENT"
  | graph => "GRAPH"

/-- Reads a model's name or its abbreviation; the case of ASCII letters does not matter. -/
def ofName? (name : String) : Option Model :=
  match Text.upper name with
  | "RELATIONAL" | "REL" => some relational
  | "DOCUMENT" | "DOC" => some document
  | "GRAPH" | "LPG" => some graph
  | _ => none

end Model

end QueryPlan
