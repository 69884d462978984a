import QueryPlan.Binary64.Basic

/-!
# Reading decimals

A decimal literal is read as a significand of at most sixty-four bits and a power of ten. The
significand is rounded to a double first and then multiplied or divided by the power, itself a
double, so a literal with many digits may come out one unit in the last place off the nearest
number. A literal beyond the greatest number is refused.
-/

namespace QueryPlan.Binary64

/-- The double nearest to a power of ten. -/
def powerOfTen (n : Nat) : Binary64 := ofNat (Nat.pow 10 n)

/-- Divides by ten to `exponent`, in steps of at most 308; the fuel bounds the steps. -/
def divideByPower : Nat → Binary64 → Nat → Binary64
  | 0, x, _ => x
  | fuel + 1, x, exponent =>
    if exponent ≤ 308 then x.div (powerOfTen exponent)
    else if x.isZero then x
    else divideByPower fuel (x.div (powerOfTen 308)) (exponent - 308)

/-- Reads `significand · 10 ^ exponent`. -/
def ofDecimal? (negative : Bool) (significand : Nat) (exponent : Int) : Option Binary64 :=
  let x := ofNat significand
  let scaled : Option Binary64 :=
    if exponent < 0 then some (divideByPower 8 x (-exponent).toNat)
    else if exponent ≤ 308 then
      let y := x.mul (powerOfTen exponent.toNat)
      if y.isFinite then some y else none
    else if x.isZero then some x
    else none
  scaled.map fun y => { y with negative }

end QueryPlan.Binary64
