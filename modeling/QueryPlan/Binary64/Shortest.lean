import QueryPlan.Binary64.Basic

/-!
# The fewest digits that read back

The reals that round to a double form an interval around it, with its ends included when the
significand is even. For one, two, … digits the two decimals next to the number are tried; the first
count of digits for which one of them lies in the interval wins, and of two the nearer is taken.
-/

namespace QueryPlan.Binary64

/-- A decimal: a whole number of units, each ten to the given power. -/
structure Decimal where
  units : Nat
  power : Int
deriving DecidableEq

/-- The interval that rounds to a number, in quarters of its last place. -/
structure Reach where
  lower : Nat
  centre : Nat
  upper : Nat
  closed : Bool

/-- Below a power of two the next number is half as far away as above it. -/
def reach (x : Binary64) : Reach :=
  let m := x.significand
  let below := if x.fraction.val = 0 && 1 < x.exponent.val then 1 else 2
  ⟨4 * m - below, 4 * m, 4 * m + 2, m % 2 = 0⟩

/-- Compares `a / b` with `c / d`. -/
def compareRatio (a b c d : Nat) : Ordering := compare (a * d) (c * b)

/-- The greatest power of ten that is not above a positive fraction. -/
def decimalExponent (num den : Nat) : Int :=
  ((Nat.toDigits 10 (num * Nat.pow 10 400 / den)).length : Int) - 401

/-- The value of a count of decimal units as a fraction. -/
def Decimal.ratio (d : Decimal) : Nat × Nat :=
  if d.power < 0 then (d.units, Nat.pow 10 (-d.power).toNat)
  else (d.units * Nat.pow 10 d.power.toNat, 1)

/-- Whether a decimal reads back as the number. -/
def readsBack (x : Binary64) (d : Decimal) : Bool :=
  let r := x.reach
  let (n, m) := d.ratio
  let (ln, ld) := shiftRatio r.lower 4 x.scale
  let (un, ud) := shiftRatio r.upper 4 x.scale
  match compareRatio n m ln ld, compareRatio n m un ud with
  | .gt, .lt => true
  | .eq, _ | _, .eq => r.closed
  | _, _ => false

/-- Which of two neighbours is taken when the number lies midway between them. -/
inductive Tie
  | up
  | even
deriving DecidableEq

/-- The power of ten that the last of so many digits of a number stands for. -/
def lastPlace (x : Binary64) (digits : Nat) : Int :=
  decimalExponent x.ratio.1 x.ratio.2 - (digits : Int) + 1

/-- A fraction counted in units of ten to the given power. -/
def inUnits (num den : Nat) (power : Int) : Nat × Nat :=
  if power < 0 then (num * Nat.pow 10 (-power).toNat, den)
  else (num, den * Nat.pow 10 power.toNat)

/-- The better of the two whole counts of a unit around the count `n / d`, if one reads back. -/
def nearer? (tie : Tie) (x : Binary64) (power : Int) (n d : Nat) : Option Decimal :=
  let below : Decimal := ⟨n / d, power⟩
  let above : Decimal := ⟨n / d + 1, power⟩
  match readsBack x below, readsBack x above with
  | false, false => none
  | true, false => some below
  | false, true => some above
  | true, true =>
    match compare (2 * (n % d)) d with
    | .lt => some below
    | .gt => some above
    | .eq =>
      match tie with
      | .up => some above
      | .even => if (n / d) % 2 = 0 then some below else some above

/-- The better of the two decimals of a given precision around a number, if one reads back. -/
def neighbour? (tie : Tie) (x : Binary64) (digits : Nat) : Option Decimal :=
  let power := x.lastPlace digits
  let count := inUnits x.ratio.1 x.ratio.2 power
  nearer? tie x power count.1 count.2

/-- Drops the zeros at the end of a decimal's digits; the fuel bounds their number. -/
def Decimal.trim : Nat → Decimal → Decimal
  | 0, d => d
  | fuel + 1, d =>
    if d.units ≠ 0 && d.units % 10 = 0 then Decimal.trim fuel ⟨d.units / 10, d.power + 1⟩ else d

/-- The shortest decimal that reads back as a finite number; seventeen digits always do. -/
def shortest (tie : Tie) (x : Binary64) : Decimal :=
  if x.isZero then ⟨0, 0⟩
  else
    match (List.range 17).findSome? fun i => neighbour? tie x (i + 1) with
    | some d => d.trim 20
    | none => ⟨0, 0⟩

end QueryPlan.Binary64
