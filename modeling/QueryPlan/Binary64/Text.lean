import QueryPlan.Binary64.Shortest

/-!
# Writing doubles

A number of moderate size is written positionally, with at least one digit after the point; any
other with one digit before the point and an exponent. Which sizes are moderate, which way a tie
between two shortest decimals goes, and whether an exponent above zero has a sign, is said by a
`Style`.
-/

namespace QueryPlan.Binary64

/-- How doubles are written. -/
structure Style where
  /-- The least decimal exponent written positionally. -/
  least : Int
  /-- The greatest decimal exponent written positionally. -/
  greatest : Int
  tie : Tie
  /-- What stands before an exponent above zero. -/
  plus : String

/-- Plan text: positional from `0.0001` up to below `1e16`, a tie goes up. -/
def Style.plan : Style := ⟨-4, 15, .up, ""⟩

/-- Data files: positional from `0.00001` up to below `1e+16`, a tie goes to the even digit. -/
def Style.data : Style := ⟨-5, 15, .even, "+"⟩

def zeros (n : Nat) : String := String.ofList (List.replicate n '0')

/-- The digits with the point after the digit that stands for `10 ^ 0`. -/
def positional (digits : List Char) (exponent : Int) : String :=
  if exponent < 0 then
    "0." ++ zeros ((-exponent).toNat - 1) ++ String.ofList digits
  else
    let whole := exponent.toNat + 1
    if digits.length ≤ whole then
      String.ofList digits ++ zeros (whole - digits.length) ++ ".0"
    else String.ofList (digits.take whole) ++ "." ++ String.ofList (digits.drop whole)

/-- One digit, the others after a point, and the exponent. -/
def scientific (plus : String) (digits : List Char) (exponent : Int) : String :=
  let tail := digits.drop 1
  let point := if tail.isEmpty then "" else "." ++ String.ofList tail
  let sign := if 0 < exponent then plus else ""
  String.ofList (digits.take 1) ++ point ++ "e" ++ sign ++ toString exponent

/-- The text of a number's magnitude. -/
def magnitudeText (style : Style) (x : Binary64) : String :=
  if x.isNaN then "NaN"
  else if !x.isFinite then "inf"
  else if x.isZero then "0.0"
  else
    let d := x.shortest style.tie
    let digits := Nat.toDigits 10 d.units
    let exponent := d.power + (digits.length : Int) - 1
    if style.least ≤ exponent && exponent ≤ style.greatest then positional digits exponent
    else scientific style.plus digits exponent

/-- The text of a number. -/
def text (style : Style) (x : Binary64) : String :=
  if x.negative && !x.isNaN then "-" ++ magnitudeText style x else magnitudeText style x

end QueryPlan.Binary64
