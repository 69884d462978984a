/-!
# Double-precision numbers

A `Binary64` is a sign, a biased exponent and a fraction, as the IEEE interchange format packs them.
Arithmetic is exact on natural numbers and rounds once, to the nearest number, a half going to the
even neighbour.

Two zeros compare equal whatever their signs, and a number that is not a number equals nothing.
-/

namespace QueryPlan

/-- The exponent has 11 bits and the fraction 52. -/
structure Binary64 where
  negative : Bool
  exponent : Fin 2048
  fraction : Fin 4503599627370496
deriving DecidableEq

namespace Binary64

def zero (negative : Bool) : Binary64 := ⟨negative, 0, 0⟩

def infinity (negative : Bool) : Binary64 := ⟨negative, 2047, 0⟩

instance : Inhabited Binary64 := ⟨zero false⟩

def isZero (x : Binary64) : Bool := x.exponent = 0 && x.fraction = 0

def isNaN (x : Binary64) : Bool := x.exponent = 2047 && x.fraction ≠ 0

def isFinite (x : Binary64) : Bool := x.exponent ≠ 2047

/-- Equality of numbers: both zeros are equal, and what is not a number equals nothing. -/
def equal (x y : Binary64) : Bool :=
  !x.isNaN && !y.isNaN && (x.isZero && y.isZero || x = y)

instance : BEq Binary64 := ⟨equal⟩

def neg (x : Binary64) : Binary64 := { x with negative := !x.negative }

/-- A finite number is its significand times a power of two; this is the significand. -/
def significand (x : Binary64) : Nat :=
  if x.exponent = 0 then x.fraction else 4503599627370496 + x.fraction

/-- A finite number is its significand times two to this power. -/
def scale (x : Binary64) : Int :=
  if x.exponent = 0 then -1074 else (x.exponent.val : Int) - 1075

/-- The magnitude of a finite number as a fraction. -/
def ratio (x : Binary64) : Nat × Nat :=
  if x.scale < 0 then (x.significand, Nat.pow 2 (-x.scale).toNat)
  else (x.significand * Nat.pow 2 x.scale.toNat, 1)

/-- The whole number nearest to a quotient, a half going to the even neighbour. -/
def roundQuotient (num den : Nat) : Nat :=
  let q := num / den
  let twice := 2 * (num % den)
  if twice < den || (twice = den && q % 2 = 0) then q else q + 1

/-- The fraction scaled by a power of two. -/
def shiftRatio (num den : Nat) (by2 : Int) : Nat × Nat :=
  if by2 < 0 then (num, den * Nat.pow 2 (-by2).toNat) else (num * Nat.pow 2 by2.toNat, den)

/-- The power of two that leaves a significand of 53 bits, or the least power there is. -/
def scaleOf (num den : Nat) : Int :=
  let guess : Int := (num.log2 : Int) - den.log2 - 53
  let (n, d) := shiftRatio num den (-guess)
  let exact := if n / d < 9007199254740992 then guess else guess + 1
  max exact (-1074)

/-- Packs a significand of at most 53 bits and a power of two. -/
def pack (negative : Bool) (significand : Nat) (scale : Int) : Binary64 :=
  if significand < 4503599627370496 then ⟨negative, 0, Fin.ofNat _ significand⟩
  else if significand = 9007199254740992 then
    if scale + 1 + 1075 < 2047 then ⟨negative, Fin.ofNat _ (scale + 1076).toNat, 0⟩
    else infinity negative
  else if scale + 1075 < 2047 then
    ⟨negative, Fin.ofNat _ (scale + 1075).toNat, Fin.ofNat _ (significand - 4503599627370496)⟩
  else infinity negative

/-- The number nearest to a fraction with a positive denominator. -/
def ofRatio (negative : Bool) (num den : Nat) : Binary64 :=
  if num = 0 then zero negative
  else
    let scale := scaleOf num den
    let (n, d) := shiftRatio num den (-scale)
    pack negative (roundQuotient n d) scale

/-- The number nearest to a natural number. -/
def ofNat (n : Nat) : Binary64 := ofRatio false n 1

/-- The number nearest to a whole number. -/
def ofInt (i : Int) : Binary64 := ofRatio (i < 0) i.natAbs 1

/-- The product of two finite numbers. -/
def mul (x y : Binary64) : Binary64 :=
  ofRatio (x.negative ^^ y.negative) (x.ratio.1 * y.ratio.1) (x.ratio.2 * y.ratio.2)

/-- The quotient of two finite numbers, the second not zero. -/
def div (x y : Binary64) : Binary64 :=
  ofRatio (x.negative ^^ y.negative) (x.ratio.1 * y.ratio.2) (x.ratio.2 * y.ratio.1)

end Binary64

end QueryPlan
