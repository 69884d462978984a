import QueryPlan.Plan.Build

/-!
# Between data models

A namespace without a graph is read through a graph made up from its entities. A plan that is wanted
in another model is wrapped in a change of model that turns pieces of the graph into documents.
-/

namespace QueryPlan

/-- A field as another model sees it: a piece of a graph becomes a document. -/
def Field.converted (f : Field) : Field :=
  if f.ty.isGraphElement then ⟨f.name, .document⟩ else f

/-- The types of the fields that are converted. -/
def Schema.converted (s : Schema) : List Ty := (s.map Field.ty).filter Ty.isGraphElement

/-- The plan in the model `target`; the plan itself if it is in that model. -/
def Plan.toModel (p : Plan) (target : Model) (operation : QueryKind) : Except Error Plan :=
  if p.model = target then .ok p
  else
    Plan.transform [p] (p.schema.map Field.converted)
      ⟨p.schema.converted, operation, p.model, target, []⟩

/-- Scans of entities, in order. -/
def Plan.scanAll : List Entity → Except Error (List Plan)
  | [] => .ok []
  | e :: es => do
    let p ← Plan.scan e
    return p :: (← Plan.scanAll es)

/-- The entities that stand in for the graph of a namespace: those whose names are among the labels,
or all of them if there are no labels. -/
def Catalog.standIns (catalog : Catalog) (ns : NamespaceId) (labels : List String) : List Entity :=
  (catalog.entitiesOf ns).filter fun e => labels.isEmpty || labels.contains e.name

/-- The graph made up from the entities of a namespace. -/
def Plan.substitutionScan (catalog : Catalog) (ns : NamespaceId) (labels : List String) :
    Except Error Plan :=
  match catalog.findNamespace? ns with
  | none => .error (.unknownEntity ns.text)
  | some info => do
    let entities := catalog.standIns ns labels
    if entities.isEmpty then
      throw (.unknownEntity (if labels.isEmpty then info.name ++ " has no entities"
        else info.name ++ " has no entity named " ++ " or ".intercalate labels))
    let scans ← Plan.scanAll entities
    Plan.transform scans (.single "graph" .graph)
      ⟨entities.map fun _ => .node, .select, info.model, .graph, entities.map Entity.name⟩

end QueryPlan
