import QueryPlan.Binary64.Basic

/-!
# JSON

A JSON text is a tree of lists and objects. A number written without fraction and exponent is a
whole number if it fits into 64 bits; all others are doubles. An object keeps its members in the
order they are written, repeated keys included.

Some texts are well formed and yet hold no data: a number beyond the greatest double, a string with
half a surrogate pair, lists and objects nested too deep. They are `unfit`, which is no fault as
long as nobody asks for them.
-/

namespace QueryPlan

inductive Json
  | null
  | bool (b : Bool)
  | int (i : Int)
  | real (x : Binary64)
  | str (s : String)
  | arr (items : List Json)
  | obj (members : List (String × Json))
  | unfit

namespace Json

instance : Inhabited Json := ⟨null⟩

/-- A number of things. -/
def ofNat (n : Nat) : Json := int n

/-- A text, or null. -/
def ofText? : Option String → Json
  | some s => str s
  | none => null

/-- Texts. -/
def ofTexts (items : List String) : Json := arr (items.map str)

/-- An object with a single member. -/
def tagged (key : String) (content : Json) : Json := obj [(key, content)]

mutual

/-- How deep lists and objects are nested. -/
def depth : Json → Nat
  | arr items => depthAll items + 1
  | obj members => depthMembers members + 1
  | _ => 0

def depthAll : List Json → Nat
  | [] => 0
  | j :: js => max j.depth (depthAll js)

def depthMembers : List (String × Json) → Nat
  | [] => 0
  | (_, j) :: rest => max j.depth (depthMembers rest)

end

mutual

/-- Whether no part is unfit. -/
def isFit : Json → Bool
  | arr items => areFit items
  | obj members => membersFit members
  | unfit => false
  | _ => true

def areFit : List Json → Bool
  | [] => true
  | j :: js => j.isFit && areFit js

def membersFit : List (String × Json) → Bool
  | [] => true
  | (_, j) :: rest => j.isFit && membersFit rest

end

/-- Of members with one key only the last stays. -/
def dropRepeated : List (String × Json) → List (String × Json)
  | [] => []
  | (key, j) :: rest =>
    if rest.any (·.1 = key) then dropRepeated rest else (key, j) :: dropRepeated rest

mutual

/-- Of members with one key only the last stays, at every depth. -/
def lastWins : Json → Json
  | arr items => arr (lastWinsAll items)
  | obj members => obj (dropRepeated (lastWinsMembers members))
  | j => j

def lastWinsAll : List Json → List Json
  | [] => []
  | j :: js => j.lastWins :: lastWinsAll js

def lastWinsMembers : List (String × Json) → List (String × Json)
  | [] => []
  | (key, j) :: rest => (key, j.lastWins) :: lastWinsMembers rest

end

end Json

end QueryPlan
