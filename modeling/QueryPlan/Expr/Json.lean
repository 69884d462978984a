import QueryPlan.Expr.Basic
import QueryPlan.Ty.Json
import QueryPlan.Value.Json

/-! # Scalar expressions as JSON -/

namespace QueryPlan

namespace Operator

/-- All operators but the named functions. -/
def all : List Operator :=
  [eq, ne, lt, le, gt, ge, and, or, xor, not, add, sub, mul, div, mod, pow, neg, isNull, isNotNull,
    isIn, like, regex, hasLabels, extractProperty, patternMatch, adjustEdge, setProperty,
    setProperties, setLabels, removeProperty, removeLabels, toList, makeList, makeMap, case]

def jsonName : Operator → String
  | eq => "Eq"
  | ne => "Ne"
  | lt => "Lt"
  | le => "Le"
  | gt => "Gt"
  | ge => "Ge"
  | and => "And"
  | or => "Or"
  | xor => "Xor"
  | not => "Not"
  | add => "Add"
  | sub => "Sub"
  | mul => "Mul"
  | div => "Div"
  | mod => "Mod"
  | pow => "Pow"
  | neg => "Neg"
  | isNull => "IsNull"
  | isNotNull => "IsNotNull"
  | isIn => "In"
  | like => "Like"
  | regex => "Regex"
  | hasLabels => "HasLabels"
  | extractProperty => "ExtractProperty"
  | patternMatch => "PatternMatch"
  | adjustEdge => "AdjustEdge"
  | setProperty => "SetProperty"
  | setProperties => "SetProperties"
  | setLabels => "SetLabels"
  | removeProperty => "RemoveProperty"
  | removeLabels => "RemoveLabels"
  | toList => "ToList"
  | makeList => "MakeList"
  | makeMap => "MakeMap"
  | case => "Case"
  | function _ => "Function"

/-- An operator by name, named functions apart. -/
def ofJsonName? (name : String) : Option Operator := all.find? (·.jsonName = name)

def toJson : Operator → Json
  | function name => .tagged "Function" (.str name)
  | op => .str op.jsonName

end Operator

namespace Expr

mutual

def toJson : Expr → Json
  | literal value ty => .tagged "Literal" (.obj [("value", value.toJson), ("ty", ty.toJson)])
  | ref index ty => .tagged "InputRef" (.obj [("index", .ofNat index), ("ty", ty.toJson)])
  | apply op operands ty =>
    .tagged "Call" (.obj [("op", op.toJson), ("operands", .arr (toJsonAll operands)),
      ("ty", ty.toJson)])

def toJsonAll : List Expr → List Json
  | [] => []
  | e :: es => e.toJson :: toJsonAll es

end

end Expr

end QueryPlan
