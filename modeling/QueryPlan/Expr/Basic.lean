import QueryPlan.Schema
import QueryPlan.Value.Equal
import QueryPlan.Value.Text

/-!
# Scalar expressions

An expression is a literal, a reference to a field of the input, or an operator applied to operands.
Every expression records its type. The constructors of `Expr` do not check that type; `Expr.ofValue`
and `Expr.call` derive it.
-/

namespace QueryPlan

inductive Operator
  | eq | ne | lt | le | gt | ge
  | and | or | xor | not
  | add | sub | mul | div | mod | pow | neg
  | isNull | isNotNull
  | isIn
  | like | regex
  /-- `(target, labels)` -/
  | hasLabels
  /-- `(target, key)` -/
  | extractProperty
  /-- `(graph, path, name)`: binds one element of a pattern. -/
  | patternMatch
  /-- `(edge, source, target)`: attaches an edge to two nodes. -/
  | adjustEdge
  /-- `(target, key, value)` -/
  | setProperty
  /-- `(target, map, replace)` -/
  | setProperties
  /-- `(target, labels)` -/
  | setLabels
  /-- `(target, key)` -/
  | removeProperty
  /-- `(target, labels)` -/
  | removeLabels
  /-- Null becomes the empty list, a scalar a list of one. -/
  | toList
  | makeList
  /-- Keys and values in turn. -/
  | makeMap
  /-- Conditions and values in turn, then perhaps a value for all other cases. -/
  | case
  /-- A named function; the name is in small letters. -/
  | function (name : String)
deriving DecidableEq, Repr

namespace Operator

/-- A named function; the case of ASCII letters does not matter. -/
def named (name : String) : Operator := function (Text.lower name)

def text : Operator → String
  | eq => "="
  | ne => "<>"
  | lt => "<"
  | le => "<="
  | gt => ">"
  | ge => ">="
  | and => "AND"
  | or => "OR"
  | xor => "XOR"
  | not => "NOT"
  | add => "+"
  | sub => "-"
  | mul => "*"
  | div => "/"
  | mod => "%"
  | pow => "^"
  | neg => "NEG"
  | isNull => "IS_NULL"
  | isNotNull => "IS_NOT_NULL"
  | isIn => "IN"
  | like => "LIKE"
  | regex => "REGEX"
  | hasLabels => "HAS_LABELS"
  | extractProperty => "EXTRACT_PROPERTY"
  | patternMatch => "PATTERN_MATCH"
  | adjustEdge => "ADJUST_EDGE"
  | setProperty => "SET_PROPERTY"
  | setProperties => "SET_PROPERTIES"
  | setLabels => "SET_LABELS"
  | removeProperty => "REMOVE_PROPERTY"
  | removeLabels => "REMOVE_LABELS"
  | toList => "TO_LIST"
  | makeList => "MAKE_LIST"
  | makeMap => "MAKE_MAP"
  | case => "CASE"
  | function name => name

end Operator

inductive Expr
  | literal (value : Value) (ty : Ty)
  | ref (index : Nat) (ty : Ty)
  | apply (op : Operator) (operands : List Expr) (ty : Ty)

namespace Expr

/-- The type an expression records. -/
def ty : Expr → Ty
  | literal _ ty | ref _ ty | apply _ _ ty => ty

/-- A literal with the type of its value. -/
def ofValue (value : Value) : Expr := literal value value.ty

/-- A text literal. -/
def ofString (s : String) : Expr := ofValue (.string s)

/-- A literal list of texts. -/
def ofStrings (items : List String) : Expr := ofValue (.list (items.map .string))

def literal? : Expr → Option Value
  | literal value _ => some value
  | _ => none

def ref? : Expr → Option Nat
  | ref index _ => some index
  | _ => none

def operator? : Expr → Option Operator
  | apply op _ _ => some op
  | _ => none

def operands : Expr → List Expr
  | apply _ operands _ => operands
  | _ => []

/-- The text of a text literal. -/
def string? (e : Expr) : Option String := e.literal?.bind Value.string?

mutual

/-- The references of an expression with the types they claim, from left to right. -/
def refs : Expr → List (Nat × Ty)
  | literal _ _ => []
  | ref index ty => [(index, ty)]
  | apply _ operands _ => refsAll operands

def refsAll : List Expr → List (Nat × Ty)
  | [] => []
  | e :: es => e.refs ++ refsAll es

end

mutual

/-- Equality part by part, recorded types included; literals compare as values do. -/
def equal : Expr → Expr → Bool
  | literal v s, literal w t => v == w && s == t
  | ref i s, ref j t => i == j && s == t
  | apply op as s, apply oq bs t => op == oq && equalAll as bs && s == t
  | _, _ => false

def equalAll : List Expr → List Expr → Bool
  | [], [] => true
  | a :: as, b :: bs => a.equal b && equalAll as bs
  | _, _ => false

end

instance : BEq Expr := ⟨equal⟩

mutual

def text : Expr → String
  | literal value _ => value.text
  | ref index _ => "$" ++ toString index
  | apply op operands _ => op.text ++ "(" ++ commas (texts operands) ++ ")"

def texts : List Expr → List String
  | [] => []
  | e :: es => e.text :: texts es

end

end Expr

/-- A reference to each field of a schema, numbered from `start`. -/
def Schema.refs (start : Nat) : Schema → List Expr
  | [] => []
  | f :: fs => .ref start f.ty :: Schema.refs (start + 1) fs

end QueryPlan
