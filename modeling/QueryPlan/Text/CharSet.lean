/-!
# Sets of characters

A set of characters is given by closed ranges of code points, in increasing order.
-/

namespace QueryPlan.Text

structure CharSet where
  ranges : List (Nat × Nat)

def CharSet.contains (s : CharSet) (c : Char) : Bool :=
  s.ranges.any fun (first, last) => first ≤ c.toNat && c.toNat ≤ last

end QueryPlan.Text
