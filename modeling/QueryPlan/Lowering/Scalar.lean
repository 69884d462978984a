import QueryPlan.Expr.Typing
import QueryPlan.Query.Expression

/-!
# Lowering expressions

An expression of a query becomes a scalar expression over a schema. A variable refers to the last
field of its name. Parts are lowered from left to right, and the first that fails decides.
Aggregates and parameters have no scalar form.
-/

namespace QueryPlan

/-- A reference to the last field of a name. -/
def Schema.lookup (scope : Schema) (name : String) : Except Error Expr :=
  match scope.find? name with
  | some (index, field) => .ok (.ref index field.ty)
  | none => .error (.unboundVariable name)

/-- Applies a binary operator; the tests of a text become patterns. -/
def BinaryOp.toExpr (op : BinaryOp) (a b : Expr) : Except Error Expr :=
  match op with
  | startsWith => Expr.stringTest .startsWith a b
  | endsWith => Expr.stringTest .endsWith a b
  | contains => Expr.stringTest .contains a b
  | eq => Expr.call .eq [a, b]
  | ne => Expr.call .ne [a, b]
  | lt => Expr.call .lt [a, b]
  | le => Expr.call .le [a, b]
  | gt => Expr.call .gt [a, b]
  | ge => Expr.call .ge [a, b]
  | and => Expr.call .and [a, b]
  | or => Expr.call .or [a, b]
  | xor => Expr.call .xor [a, b]
  | add => Expr.call .add [a, b]
  | sub => Expr.call .sub [a, b]
  | mul => Expr.call .mul [a, b]
  | div => Expr.call .div [a, b]
  | mod => Expr.call .mod [a, b]
  | pow => Expr.call .pow [a, b]
  | isIn => Expr.call .isIn [a, b]
  | regexMatch => Expr.call .regex [a, b]

def UnaryOp.toOperator : UnaryOp → Operator
  | not => .not
  | neg => .neg
  | isNull => .isNull
  | isNotNull => .isNotNull

/-- The condition of a case's arm: a case with an input compares it with what the arm gives. -/
def armCondition (input : Option Expr) (condition : Expr) : Except Error Expr :=
  match input with
  | some subject => Expr.call .eq [subject, condition]
  | none => .ok condition

namespace Expression

mutual

/-- The scalar expression over a schema. -/
def toExpr (scope : Schema) : Expression → Except Error Expr
  | literal l => .ok (.ofValue l.value)
  | var name => scope.lookup name
  | parameter name =>
    .error (.unsupportedOperation ("parameter $" ++ name ++ " is not supported"))
  | property name key => do
    let target ← scope.lookup name
    Expr.call .extractProperty [target, .ofString key]
  | hasLabels name labels => do
    let target ← scope.lookup name
    Expr.call .hasLabels [target, .ofStrings labels]
  | binary left op right => do
    let a ← left.toExpr scope
    let b ← right.toExpr scope
    op.toExpr a b
  | unary op operand => do
    let a ← operand.toExpr scope
    Expr.call op.toOperator [a]
  | call name args _ =>
    if isAggregateName name then
      .error (.unsupportedOperation
        ("aggregate " ++ name ++ "() is only allowed in RETURN or WITH"))
    else do
      let operands ← toExprs scope args
      Expr.call (.named name) operands
  | countStar =>
    .error (.unsupportedOperation "count(*) is only allowed in RETURN or WITH")
  | list items => do
    let operands ← toExprs scope items
    Expr.call .makeList operands
  | map entries => do
    let operands ← entryExprs scope entries
    Expr.call .makeMap operands
  | case input arms otherwise => do
    let subject ← optionExpr scope input
    let operands ← armExprs scope subject arms
    let last ← optionExpr scope otherwise
    Expr.call .case (operands ++ last.toList)

def toExprs (scope : Schema) : List Expression → Except Error (List Expr)
  | [] => .ok []
  | e :: es => do
    let x ← e.toExpr scope
    let xs ← toExprs scope es
    return x :: xs

/-- Keys and values in turn. -/
def entryExprs (scope : Schema) : List (String × Expression) → Except Error (List Expr)
  | [] => .ok []
  | (key, e) :: rest => do
    let x ← e.toExpr scope
    let xs ← entryExprs scope rest
    return .ofString key :: x :: xs

/-- Conditions and values in turn. -/
def armExprs (scope : Schema) (subject : Option Expr) :
    List (Expression × Expression) → Except Error (List Expr)
  | [] => .ok []
  | (condition, value) :: rest => do
    let c ← condition.toExpr scope
    let c ← armCondition subject c
    let v ← value.toExpr scope
    let xs ← armExprs scope subject rest
    return c :: v :: xs

def optionExpr (scope : Schema) : Option Expression → Except Error (Option Expr)
  | none => .ok none
  | some e => do
    let x ← e.toExpr scope
    return some x

end

end Expression

end QueryPlan
