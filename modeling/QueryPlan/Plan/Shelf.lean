import QueryPlan.Plan.Basic

/-!
# Keeping plans

A shelf keeps the results of steps by position, some of which are plans. Every node of a plan gets a
tag when the plan is put on the shelf, unless it has one. So of any two nodes on the shelf it can be
seen whether they are the same.
-/

namespace QueryPlan

structure Shelf where
  entries : List (Option Plan)
  nextTag : Nat

namespace Shelf

def empty (nextTag : Nat) : Shelf := ⟨[], nextTag⟩

/-- The plan at a position, if there is one. -/
def plan? (s : Shelf) (position : Nat) : Option Plan := s.entries[position]?.join

/-- The plans at positions, if there is one at each. -/
def plans? (s : Shelf) : List Nat → Option (List Plan)
  | [] => some []
  | i :: is =>
    match s.plan? i with
    | some p => (s.plans? is).map (p :: ·)
    | none => none

/-- Puts the result of a step at the next position. -/
def put (s : Shelf) : Option Plan → Shelf
  | some p => ⟨s.entries ++ [some (p.identify s.nextTag)], s.nextTag + p.size⟩
  | none => ⟨s.entries ++ [none], s.nextTag⟩

/-- The plan put last, if the last result was one. -/
def last? (s : Shelf) : Option Plan := s.entries.getLast?.join

end Shelf

end QueryPlan
