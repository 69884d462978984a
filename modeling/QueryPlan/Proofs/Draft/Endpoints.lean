import QueryPlan.Draft.Combine
import QueryPlan.Proofs.Outcome
import QueryPlan.Proofs.Schema

/-!
# The ends of new edges

Whether an end of a new edge is a field of the input is looked up once, to tell the case that the
edge is in, and the field is then taken from the schema by its position. Both come to the same as
looking up each end by its name, so the position is never one that the schema does not have.
-/

namespace QueryPlan

/-- One end of a new edge: the field of the input that has its name, or a placeholder. -/
def endpointExpr (schema : Schema) (key : String) : Expr :=
  match schema.find? key with
  | some (index, field) => .ref index field.ty
  | none => .ofValue (.node (.standIn key))

variable {schema : Schema} {key : String}

theorem endpointExpr_of_none (h : schema.indexOf? key = none) :
    endpointExpr schema key = .ofValue (.node (.standIn key)) := by
  rw [Schema.indexOf?_eq_map_find?, Option.map_eq_none_iff] at h
  rw [endpointExpr, h]

/-- The position that a name is found at is one that the schema has. -/
theorem fieldRef_of_some {index : Nat} (h : schema.indexOf? key = some index) :
    fieldRef schema index = .ok (endpointExpr schema key) := by
  rw [Schema.indexOf?_eq_map_find?, Option.map_eq_some_iff] at h
  obtain ⟨⟨_, field⟩, hfound, rfl⟩ := h
  rw [endpointExpr, hfound, fieldRef, (Schema.find?_eq_some_iff.mp hfound).field]

/-- **The case of an edge gives its ends**, without fail. -/
theorem EndpointCase.ends_classify (schema : Schema) (edge : BoundEdge) :
    (classify schema edge).ends schema edge =
      .ok (endpointExpr schema edge.left, endpointExpr schema edge.right) := by
  unfold classify
  cases hleft : schema.indexOf? edge.left with
  | none =>
      cases hright : schema.indexOf? edge.right with
      | none => rw [endpointExpr_of_none hleft, endpointExpr_of_none hright, ends]
      | some right => rw [endpointExpr_of_none hleft, ends, fieldRef_of_some hright]; rfl
  | some left =>
      cases hright : schema.indexOf? edge.right with
      | none => rw [endpointExpr_of_none hright, ends, fieldRef_of_some hleft]; rfl
      | some right => rw [ends, fieldRef_of_some hleft, fieldRef_of_some hright]; rfl

end QueryPlan
