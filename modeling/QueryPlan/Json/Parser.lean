import QueryPlan.Binary64.Decimal
import QueryPlan.Json.Basic

/-!
# Reading JSON

The reader takes one JSON text with blanks around it and nothing else, and refuses what is not well
formed, such as control characters inside strings. Lists and objects nested more than 127 deep,
strings and keys with half a surrogate pair, and numbers beyond the greatest double are unfit.
-/

namespace QueryPlan.Json

def isBlank (c : Char) : Bool := c = ' ' || c = '\n' || c = '\t' || c = '\r'

def skipBlanks (cs : List Char) : List Char := cs.dropWhile isBlank

def digitValue (c : Char) : Nat := c.toNat - '0'.toNat

/-- Takes digits up as long as the number fits into 64 bits. Gives the number and how many digits it
took. -/
def significandOf (start : Nat) : List Char → Nat × Nat
  | [] => (start, 0)
  | c :: cs =>
    let next := start * 10 + digitValue c
    if next < UInt64.size then
      let (n, taken) := significandOf next cs
      (n, taken + 1)
    else (start, 0)

/-- The digits after a point; there must be one. -/
def fractionDigits? : List Char → Option (List Char × List Char)
  | '.' :: cs =>
    let digits := cs.takeWhile Char.isDigit
    if digits.isEmpty then none else some (digits, cs.dropWhile Char.isDigit)
  | cs => some ([], cs)

/-- The exponent; without one it is zero. -/
def exponent? : List Char → Option (Option Int × List Char)
  | c :: cs =>
    if c = 'e' || c = 'E' then
      let (negative, cs) := match cs with
        | '+' :: rest => (false, rest)
        | '-' :: rest => (true, rest)
        | rest => (false, rest)
      let digits := cs.takeWhile Char.isDigit
      if digits.isEmpty then none
      else
        let n : Int := digits.foldl (fun n c => n * 10 + digitValue c) 0
        some (some (if negative then -n else n), cs.dropWhile Char.isDigit)
    else some (none, c :: cs)
  | [] => some (none, [])

/-- A double, if there is one. -/
def ofReal? : Option Binary64 → Json
  | some x => real x
  | none => unfit

/-- A number of digits, without fraction and exponent. There is no negative whole zero. -/
def wholeNumber (negative : Bool) (digits : List Char) : Json :=
  let (n, taken) := significandOf 0 digits
  if taken < digits.length then ofReal? (Binary64.ofDecimal? negative n (digits.length - taken))
  else if negative then
    if n = 0 || Int64.minValue.toInt.natAbs < n then real { Binary64.ofNat n with negative := true }
    else int (-n)
  else int n

/-- A number after its sign. -/
def unsigned? (negative : Bool) (cs : List Char) : Option (Json × List Char) := do
  let digits := cs.takeWhile Char.isDigit
  if digits.isEmpty || (digits.head? = some '0' && 1 < digits.length) then none
  let (fraction, rest) ← fractionDigits? (cs.dropWhile Char.isDigit)
  let (exponent, rest) ← exponent? rest
  if fraction.isEmpty && exponent.isNone then
    return (wholeNumber negative digits, rest)
  else
    let (whole, taken) := significandOf 0 digits
    let (n, places) := significandOf whole fraction
    let power : Int := (digits.length - taken : Nat) - (places : Int) + exponent.getD 0
    return (ofReal? (Binary64.ofDecimal? negative n power), rest)

def number? : List Char → Option (Json × List Char)
  | '-' :: cs => unsigned? true cs
  | cs => unsigned? false cs

def hexValue? (c : Char) : Option Nat :=
  if c.isDigit then some (digitValue c)
  else if 'a' ≤ c && c ≤ 'f' then some (c.toNat - 'a'.toNat + 10)
  else if 'A' ≤ c && c ≤ 'F' then some (c.toNat - 'A'.toNat + 10)
  else none

/-- Four hexadecimal digits. -/
def hexWord? : List Char → Option (Nat × List Char)
  | a :: b :: c :: d :: cs => do
    let (a, b, c, d) := (← hexValue? a, ← hexValue? b, ← hexValue? c, ← hexValue? d)
    return (((a * 16 + b) * 16 + c) * 16 + d, cs)
  | _ => none

/-- The second half of a surrogate pair. -/
def lowHalf? : List Char → Option (Nat × List Char)
  | '\\' :: 'u' :: cs => (hexWord? cs).filter fun (low, _) => 0xDC00 ≤ low && low < 0xE000
  | _ => none

/-- A character given by its number, or by the two halves of a surrogate pair. A half alone is no
character. -/
def numbered? (cs : List Char) : Option (Option Char × List Char) := do
  let (high, cs) ← hexWord? cs
  if 0xD800 ≤ high && high < 0xDC00 then
    match lowHalf? cs with
    | some (low, cs) =>
      return (some (Char.ofNat (0x10000 + (high - 0xD800) * 0x400 + (low - 0xDC00))), cs)
    | none => return (none, cs)
  else if 0xDC00 ≤ high && high < 0xE000 then return (none, cs)
  else return (some (Char.ofNat high), cs)

/-- The character after a backslash. -/
def escaped? : List Char → Option (Option Char × List Char)
  | '"' :: cs => some (some '"', cs)
  | '\\' :: cs => some (some '\\', cs)
  | '/' :: cs => some (some '/', cs)
  | 'b' :: cs => some (some (Char.ofNat 8), cs)
  | 'f' :: cs => some (some (Char.ofNat 12), cs)
  | 'n' :: cs => some (some '\n', cs)
  | 'r' :: cs => some (some '\r', cs)
  | 't' :: cs => some (some '\t', cs)
  | 'u' :: cs => numbered? cs
  | _ => none

/-- The rest of a string after its opening quote, onto the characters read so far, last first; they
are lost after half a surrogate pair. The fuel bounds the characters. -/
def string? : Nat → Option (List Char) → List Char → Option (Option String × List Char)
  | 0, _, _ => none
  | fuel + 1, read, cs =>
    match cs with
    | [] => none
    | '"' :: cs => some (read.map fun read => String.ofList read.reverse, cs)
    | '\\' :: cs =>
      match escaped? cs with
      | some (some c, cs) => string? fuel (read.map (c :: ·)) cs
      | some (none, cs) => string? fuel none cs
      | none => none
    | c :: cs => if c.toNat < 32 then none else string? fuel (read.map (c :: ·)) cs

/-- A string, if it is one. -/
def ofString? : Option String → Json
  | some s => str s
  | none => unfit

/-- An object, if all keys are strings. -/
def ofMembers (members : List (Option String × Json)) : Json :=
  match members.mapM fun (key, j) => key.map (·, j) with
  | some members => obj members
  | none => unfit

/-- A list or an object, if there is a level left for it. -/
def atLevel : Nat → Json → Json
  | 0, _ => unfit
  | _ + 1, j => j

/-- Drops a word from the front. -/
def word? (word : String) (cs : List Char) : Option (List Char) :=
  let n := word.length
  if cs.take n = word.toList then some (cs.drop n) else none

mutual

/-- A value with blanks before it; below `depth` levels of nesting lists and objects are unfit. The
fuel bounds the steps. -/
def value? : Nat → Nat → List Char → Option (Json × List Char)
  | 0, _, _ => none
  | fuel + 1, depth, cs =>
    match skipBlanks cs with
    | '"' :: cs => (string? (cs.length + 1) (some []) cs).map fun (s, cs) => (ofString? s, cs)
    | '[' :: cs =>
      match skipBlanks cs with
      | ']' :: cs => some (atLevel depth (arr []), cs)
      | cs => (items? fuel (depth - 1) cs).map fun (items, cs) => (atLevel depth (arr items), cs)
    | '\x7b' :: cs =>
      match skipBlanks cs with
      | '\x7d' :: cs => some (atLevel depth (obj []), cs)
      | cs =>
        (members? fuel (depth - 1) cs).map fun (members, cs) =>
          (atLevel depth (ofMembers members), cs)
    | 't' :: cs => (word? "rue" cs).map fun cs => (bool true, cs)
    | 'f' :: cs => (word? "alse" cs).map fun cs => (bool false, cs)
    | 'n' :: cs => (word? "ull" cs).map fun cs => (null, cs)
    | cs => number? cs

/-- One or more items up to the closing bracket. -/
def items? : Nat → Nat → List Char → Option (List Json × List Char)
  | 0, _, _ => none
  | fuel + 1, depth, cs =>
    match value? fuel depth cs with
    | none => none
    | some (j, cs) =>
      match skipBlanks cs with
      | ',' :: cs => (items? fuel depth cs).map fun (js, cs) => (j :: js, cs)
      | ']' :: cs => some ([j], cs)
      | _ => none

/-- One or more members up to the closing brace. -/
def members? : Nat → Nat → List Char → Option (List (Option String × Json) × List Char)
  | 0, _, _ => none
  | fuel + 1, depth, cs =>
    match skipBlanks cs with
    | '"' :: cs =>
      match string? (cs.length + 1) (some []) cs with
      | none => none
      | some (key, cs) =>
        match skipBlanks cs with
        | ':' :: cs =>
          match value? fuel depth cs with
          | none => none
          | some (j, cs) =>
            match skipBlanks cs with
            | ',' :: cs => (members? fuel depth cs).map fun (rest, cs) => ((key, j) :: rest, cs)
            | '\x7d' :: cs => some ([(key, j)], cs)
            | _ => none
        | _ => none
    | _ => none

end

/-- Reads a whole JSON text, unfit parts included. -/
def parse? (s : String) : Option Json :=
  let cs := s.toList
  match value? (2 * cs.length + 2) 127 cs with
  | some (j, rest) => if (skipBlanks rest).isEmpty then some j else none
  | none => none

/-- Reads a whole JSON text of which every part is data. -/
def parseFit? (s : String) : Option Json := (parse? s).filter isFit

end QueryPlan.Json
