import QueryPlan.Catalog.Describe
import QueryPlan.Draft.Basic

/-! # Descriptions of drafts -/

namespace QueryPlan

def QueryKind.describe : QueryKind → String
  | select => "Select"
  | insert => "Insert"
  | update => "Update"
  | delete => "Delete"

def GraphSource.describe : GraphSource → String
  | entity e => "Entity(" ++ e.describe ++ ")"
  | substitution home labels =>
    describeRecord "Substitution" [("namespace", home.describe), ("labels", Text.quoteList labels)]

/-- Of the stack, the queue and the bound elements only their numbers are shown. -/
def Draft.describe (d : Draft) : String :=
  describeRecord "TranslationContext" [("source", d.source.describe),
    ("stack", toString d.stack.length), ("pending", toString d.pending.length),
    ("bound_nodes", toString d.nodes.length), ("bound_edges", toString d.edges.length),
    ("kind", match d.kind with
      | some kind => "Some(" ++ kind.describe ++ ")"
      | none => "None")]

end QueryPlan
