import QueryPlan.Binary64.Basic
import QueryPlan.Plan.Text

/-!
# Interning plans

An interner keeps the first plan it sees for each fingerprint and gives that plan back for every
later one with the same fingerprint. It holds a bounded number of plans; when it is full the one
stored longest ago goes. With no room at all it stores and counts nothing.
-/

namespace QueryPlan

structure Interner where
  capacity : Nat
  /-- Plans by fingerprint, the oldest first. -/
  plans : List (String × Plan)
  hits : Nat
  misses : Nat

/-- What an interner has counted. -/
structure InternerStats where
  hits : Nat
  misses : Nat
  entries : Nat
deriving DecidableEq, Repr

/-- The share of look-ups that found a stored plan; zero before any. -/
def InternerStats.hitRate (s : InternerStats) : Binary64 :=
  if s.hits + s.misses = 0 then .zero false
  else (Binary64.ofNat s.hits).div (.ofNat (s.hits + s.misses))

namespace Interner

def empty (capacity : Nat) : Interner := ⟨capacity, [], 0, 0⟩

/-- The plan stored under a fingerprint. -/
def get? (i : Interner) (fingerprint : String) : Option Plan :=
  (i.plans.find? (·.1 = fingerprint)).map Prod.snd

/-- Makes room for one more plan. -/
def evict (i : Interner) : List (String × Plan) :=
  if i.capacity ≤ i.plans.length then i.plans.drop 1 else i.plans

/-- The stored plan with the fingerprint of `p`, or `p` itself, which is then stored. -/
def intern (i : Interner) (p : Plan) : Plan × Interner :=
  if i.capacity = 0 then (p, i)
  else
    match i.get? p.fingerprint with
    | some stored => (stored, { i with hits := i.hits + 1 })
    | none => (p, { i with plans := i.evict ++ [(p.fingerprint, p)], misses := i.misses + 1 })

def stats (i : Interner) : InternerStats := ⟨i.hits, i.misses, i.plans.length⟩

/-- Forgets all plans and counts. -/
def clear (i : Interner) : Interner := empty i.capacity

end Interner

end QueryPlan
