import QueryPlan.Error
import QueryPlan.Expr.Basic

/-!
# Types of calls

The type of a call follows from its operator and operands alone. Most rules look only at the types
of the operands; a few want a literal: keys, label lists, the path of a pattern, the edge to attach.
-/

namespace QueryPlan

namespace Operator

/-- The operator is applied to the wrong number of operands. -/
def arityError (op : Operator) (expected : String) (operands : List Expr) : Error :=
  .invalidPlan (op.text ++ " expects " ++ expected ++ s!" operands, found {operands.length}")

def unary (op : Operator) (operands : List Expr) (rule : Expr → Except Error Ty) :
    Except Error Ty :=
  match operands with
  | [a] => rule a
  | _ => .error (op.arityError "1" operands)

def binary (op : Operator) (operands : List Expr) (rule : Expr → Expr → Except Error Ty) :
    Except Error Ty :=
  match operands with
  | [a, b] => rule a b
  | _ => .error (op.arityError "2" operands)

def ternary (op : Operator) (operands : List Expr)
    (rule : Expr → Expr → Expr → Except Error Ty) : Except Error Ty :=
  match operands with
  | [a, b, c] => rule a b c
  | _ => .error (op.arityError "3" operands)

end Operator

namespace Expr

/-- The expression's type must be accepted. -/
def expect (accepted : Ty → Bool) (expected : String) (e : Expr) : Except Error Unit :=
  require (accepted e.ty) (.mismatch expected e.ty)

/-- The types must be accepted from left to right; the first that is not is reported. -/
def expectAll (accepted : Ty → Bool) (expected : String) : List Expr → Except Error Unit
  | [] => .ok ()
  | e :: es => do
    expect accepted expected e
    expectAll accepted expected es

def expectString (e : Expr) : Except Error String :=
  match e.string? with
  | some s => .ok s
  | none => .error (.mismatch "string literal" e.ty)

/-- Whether a value is a list of texts. -/
def isStringList : Value → Bool
  | .list items => items.all (·.string?.isSome)
  | _ => false

def expectStringList (e : Expr) : Except Error Unit :=
  require (e.literal?.any isStringList) (.mismatch "list of string literals" e.ty)

def expectPath (e : Expr) : Except Error Path :=
  match e.literal? with
  | some (.path p) => .ok p
  | _ => .error (.mismatch "path literal" e.ty)

def expectEdge (e : Expr) : Except Error Unit :=
  match e.literal? with
  | some (.edge _) => .ok ()
  | _ => .error (.mismatch "edge literal" e.ty)

/-- Every other expression, from the first on, is a text literal. -/
def expectKeys : List Expr → Except Error Unit
  | [] => .ok ()
  | [key] => do
    let _ ← expectString key
  | key :: _ :: rest => do
    let _ ← expectString key
    expectKeys rest

/-- The conditions of a case are booleans; gives the types of its branches. -/
def caseBranches : List Expr → Except Error (List Ty)
  | [] => .ok []
  | [otherwise] => .ok [otherwise.ty]
  | condition :: value :: rest => do
    expect Ty.isBooleanLike "bool" condition
    return value.ty :: (← caseBranches rest)

end Expr

namespace Operator

/-- The sum of two lists, or of a list and an element, is a list; of two texts a text; of two
numbers a number. -/
def addType (a b : Expr) : Except Error Ty :=
  if a.ty.isList || b.ty.isList then
    .ok (.list ((a.ty.element?.getD a.ty).unify (b.ty.element?.getD b.ty)))
  else if (a.ty == .string || b.ty == .string) && a.ty.isStringLike && b.ty.isStringLike then
    .ok .string
  else do
    a.expect Ty.isNumericLike "numeric"
    b.expect Ty.isNumericLike "numeric"
    return a.ty.unify b.ty

/-- The type of a named function; of an unknown one nothing is known. -/
def functionType (name : String) (args : List Ty) : Ty :=
  match name with
  | "size" | "length" | "tointeger" | "count" => .int64
  | "tofloat" | "rand" | "sqrt" | "log" | "exp" => .float64
  | "toboolean" | "exists" => .bool
  | "tostring" | "id" | "elementid" | "type" | "tolower" | "toupper" | "trim" | "substring"
  | "replace" => .string
  | "labels" | "keys" => .list .string
  | "properties" => .map
  | "nodes" => .list .node
  | "relationships" => .list .edge
  | "startnode" | "endnode" => .node
  | "range" => .list .int64
  | "abs" | "ceil" | "floor" | "round" | "tail" | "reverse" => args.head?.getD .any
  | "coalesce" => .common args
  | "head" | "last" => (args.head?.bind Ty.element?).getD .any
  | _ => .any

/-- The type of the operator applied to the operands. -/
def resultType (op : Operator) (operands : List Expr) : Except Error Ty :=
  match op with
  | eq | ne | lt | le | gt | ge => op.binary operands fun _ _ => .ok .bool
  | and | or | xor => do
    require (2 ≤ operands.length) (op.arityError "at least 2" operands)
    Expr.expectAll Ty.isBooleanLike "bool" operands
    return .bool
  | not => op.unary operands fun a => do
    a.expect Ty.isBooleanLike "bool"
    return .bool
  | add => op.binary operands addType
  | sub | mul | div | mod => op.binary operands fun a b => do
    a.expect Ty.isNumericLike "numeric"
    b.expect Ty.isNumericLike "numeric"
    return a.ty.unify b.ty
  | pow => op.binary operands fun a b => do
    a.expect Ty.isNumericLike "numeric"
    b.expect Ty.isNumericLike "numeric"
    return .float64
  | neg => op.unary operands fun a => do
    a.expect Ty.isNumericLike "numeric"
    return a.ty
  | isNull | isNotNull => op.unary operands fun _ => .ok .bool
  | isIn => op.binary operands fun _ b => do
    b.expect (fun t => t.isList || t.isDynamic) "list"
    return .bool
  | like | regex => op.binary operands fun a b => do
    a.expect Ty.isStringLike "string"
    b.expect Ty.isStringLike "string"
    return .bool
  | hasLabels => op.binary operands fun a b => do
    a.expect Ty.isLabelled "node"
    b.expectStringList
    return .bool
  | extractProperty => op.binary operands fun a b => do
    a.expect Ty.hasProperties "node, edge or map"
    let _ ← b.expectString
    return .any
  | patternMatch => op.ternary operands fun a b c => do
    a.expect (fun t => t == .graph || t == .any) "graph"
    let path ← b.expectPath
    let name ← c.expectString
    match path.elementTy? name with
    | some ty => return ty
    | none => throw (.unboundVariable name)
  | adjustEdge => op.ternary operands fun a b c => do
    a.expectEdge
    b.expect (fun t => t == .node || t == .any) "node"
    c.expect (fun t => t == .node || t == .any) "node"
    return .edge
  | setProperty => op.ternary operands fun a b _ => do
    a.expect Ty.hasProperties "node or edge"
    let _ ← b.expectString
    return a.ty
  | setProperties => op.ternary operands fun a b c => do
    a.expect Ty.hasProperties "node or edge"
    b.expect Ty.hasProperties "map"
    c.expect (· == .bool) "bool"
    return a.ty
  | setLabels | removeLabels => op.binary operands fun a b => do
    a.expect Ty.isLabelled "node"
    b.expectStringList
    return a.ty
  | removeProperty => op.binary operands fun a b => do
    a.expect Ty.hasProperties "node or edge"
    let _ ← b.expectString
    return a.ty
  | toList => op.unary operands fun a => .ok (if a.ty.isList then a.ty else .list a.ty)
  | makeList => .ok (.list (.common (operands.map Expr.ty)))
  | makeMap => do
    require (operands.length % 2 = 0) (op.arityError "an even number of" operands)
    Expr.expectKeys operands
    return .map
  | case => do
    require (2 ≤ operands.length) (op.arityError "at least 2" operands)
    return .common (← Expr.caseBranches operands)
  | function name => .ok (functionType name (operands.map Expr.ty))

end Operator

namespace Expr

/-- Applies an operator, deriving the type of the call. -/
def call (op : Operator) (operands : List Expr) : Except Error Expr := do
  return apply op operands (← op.resultType operands)

/-- The tests of a text for a part at its start, at its end, or anywhere. -/
inductive StringTest
  | startsWith
  | endsWith
  | contains
deriving DecidableEq, Repr

def StringTest.text : StringTest → String
  | startsWith => "STARTS WITH"
  | endsWith => "ENDS WITH"
  | contains => "CONTAINS"

/-- The pattern in which a percent sign stands for any characters. -/
def StringTest.pattern (test : StringTest) (part : String) : String :=
  match test with
  | startsWith => part ++ "%"
  | endsWith => "%" ++ part
  | contains => "%" ++ part ++ "%"

/-- A test of a text for a literal part, as a `like` over the test's pattern. -/
def stringTest (test : StringTest) (subject part : Expr) : Except Error Expr :=
  match part.string? with
  | some s => call .like [subject, ofString (test.pattern s)]
  | none => .error (.unsupportedOperation (test.text ++ " requires a string literal pattern"))

end Expr

end QueryPlan
