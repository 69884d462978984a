/-!
# Types of values

`any` is the type of a value that is only known when the plan runs, `null` the type of the null
literal. `unify` gives the least type that covers two types.
-/

namespace QueryPlan

inductive Ty
  | any
  | null
  | bool
  | int64
  | float64
  | string
  | list (element : Ty)
  | map
  | document
  | node
  | edge
  | path
  | graph
deriving DecidableEq, Repr

namespace Ty

def text : Ty → String
  | any => "any"
  | null => "null"
  | bool => "bool"
  | int64 => "int64"
  | float64 => "float64"
  | string => "string"
  | list element => "list<" ++ element.text ++ ">"
  | map => "map"
  | document => "document"
  | node => "node"
  | edge => "edge"
  | path => "path"
  | graph => "graph"

def element? : Ty → Option Ty
  | list element => some element
  | _ => none

def isList : Ty → Bool
  | list _ => true
  | _ => false

/-- Types whose values are known only when the plan runs. -/
def isDynamic : Ty → Bool
  | any | null => true
  | _ => false

/-- Types a boolean operator accepts. -/
def isBooleanLike : Ty → Bool
  | bool | any | null => true
  | _ => false

/-- Types an arithmetic operator accepts. -/
def isNumericLike : Ty → Bool
  | int64 | float64 | any | null => true
  | _ => false

/-- Types a text operator accepts. -/
def isStringLike : Ty → Bool
  | string | any | null => true
  | _ => false

def isGraphElement : Ty → Bool
  | node | edge | path => true
  | _ => false

/-- Types whose values have properties to read. -/
def hasProperties : Ty → Bool
  | node | edge | map | document | any | null => true
  | _ => false

/-- Types whose values have labels. -/
def isLabelled : Ty → Bool
  | node | edge | any | null => true
  | _ => false

/-- The least type that covers both: `null` is below every type, `int64` below `float64`, lists go
element by element, and `any` covers all. -/
def unify : Ty → Ty → Ty
  | list a, list b => list (unify a b)
  | null, b => b
  | a, null => a
  | int64, float64 => float64
  | float64, int64 => float64
  | a, b => if a = b then a else any

/-- The least type that covers all types of a list; nothing at all has type `any`. -/
def common : List Ty → Ty
  | [] => any
  | t :: ts => ts.foldl unify t

end Ty

end QueryPlan
