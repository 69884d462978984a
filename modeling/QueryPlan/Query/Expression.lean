import QueryPlan.Plan.Basic

/-!
# Expressions of a query

Expressions as a query writes them, and their text, which is also the name of a column that has no
other. An aggregate function is told by its name.
-/

namespace QueryPlan

inductive Literal
  | null
  | bool (b : Bool)
  | integer (i : Int64)
  | float (x : Binary64)
  | string (s : String)

inductive BinaryOp
  | eq | ne | lt | le | gt | ge
  | and | or | xor
  | add | sub | mul | div | mod | pow
  | isIn | startsWith | endsWith | contains | regexMatch
deriving DecidableEq, Repr

def BinaryOp.text : BinaryOp → String
  | eq => "="
  | ne => "<>"
  | lt => "<"
  | le => "<="
  | gt => ">"
  | ge => ">="
  | and => "AND"
  | or => "OR"
  | xor => "XOR"
  | add => "+"
  | sub => "-"
  | mul => "*"
  | div => "/"
  | mod => "%"
  | pow => "^"
  | isIn => "IN"
  | startsWith => "STARTS WITH"
  | endsWith => "ENDS WITH"
  | contains => "CONTAINS"
  | regexMatch => "=~"

inductive UnaryOp
  | not
  | neg
  | isNull
  | isNotNull
deriving DecidableEq, Repr

def UnaryOp.text (op : UnaryOp) (operand : String) : String :=
  match op with
  | not => "NOT " ++ operand
  | neg => "-" ++ operand
  | isNull => operand ++ " IS NULL"
  | isNotNull => operand ++ " IS NOT NULL"

inductive Expression
  | literal (l : Literal)
  | var (name : String)
  | parameter (name : String)
  | property (var key : String)
  | hasLabels (var : String) (labels : List String)
  | binary (left : Expression) (op : BinaryOp) (right : Expression)
  | unary (op : UnaryOp) (operand : Expression)
  | call (name : String) (args : List Expression) (distinct : Bool)
  | countStar
  | list (items : List Expression)
  | map (entries : List (String × Expression))
  | case (input : Option Expression) (arms : List (Expression × Expression))
      (otherwise : Option Expression)

/-- Whether a name is that of an aggregate function; the case of ASCII letters does not matter. -/
def isAggregateName (name : String) : Bool :=
  ["count", "sum", "avg", "min", "max", "collect"].contains (Text.lower name)

/-- Single quotes around the text, a backslash before those inside. -/
def Literal.text : Literal → String
  | null => "null"
  | bool b => toString b
  | integer i => toString i.toInt
  | float x => x.text .plan
  | string s =>
    "'" ++ String.join (s.toList.map fun c => if c = '\'' then "\\'" else c.toString) ++ "'"

/-- The value of a literal. -/
def Literal.value : Literal → Value
  | null => .null
  | bool b => .bool b
  | integer i => .int i
  | float x => .float x
  | string s => .string s

namespace Expression

mutual

def text : Expression → String
  | literal l => l.text
  | var name => name
  | parameter name => "$" ++ name
  | property name key => name ++ "." ++ key
  | hasLabels name labels => name ++ String.join (labels.map (":" ++ ·))
  | binary left op right => left.text ++ " " ++ op.text ++ " " ++ right.text
  | unary op operand => op.text operand.text
  | call name args distinct =>
    name ++ "(" ++ (if distinct then "DISTINCT " else "") ++ commas (texts args) ++ ")"
  | countStar => "count(*)"
  | list items => "[" ++ commas (texts items) ++ "]"
  | map entries => "\x7b" ++ commas (entryTexts entries) ++ "\x7d"
  | case input arms otherwise =>
    "CASE" ++ textAfter " " input ++ String.join (armTexts arms) ++ textAfter " ELSE " otherwise ++
      " END"

def texts : List Expression → List String
  | [] => []
  | e :: es => e.text :: texts es

def entryTexts : List (String × Expression) → List String
  | [] => []
  | (key, e) :: rest => (key ++ ": " ++ e.text) :: entryTexts rest

def armTexts : List (Expression × Expression) → List String
  | [] => []
  | (condition, value) :: rest =>
    (" WHEN " ++ condition.text ++ " THEN " ++ value.text) :: armTexts rest

def textAfter (lead : String) : Option Expression → String
  | none => ""
  | some e => lead ++ e.text

end

mutual

/-- Whether an aggregate function is called anywhere in the expression. -/
def containsAggregate : Expression → Bool
  | countStar => true
  | call name args _ => isAggregateName name || anyAggregate args
  | binary left _ right => left.containsAggregate || right.containsAggregate
  | unary _ operand => operand.containsAggregate
  | list items => anyAggregate items
  | map entries => anyEntryAggregate entries
  | case input arms otherwise =>
    optionAggregate input || anyArmAggregate arms || optionAggregate otherwise
  | literal _ | var _ | parameter _ | property _ _ | hasLabels _ _ => false

def anyAggregate : List Expression → Bool
  | [] => false
  | e :: es => e.containsAggregate || anyAggregate es

def anyEntryAggregate : List (String × Expression) → Bool
  | [] => false
  | (_, e) :: rest => e.containsAggregate || anyEntryAggregate rest

def anyArmAggregate : List (Expression × Expression) → Bool
  | [] => false
  | (condition, value) :: rest =>
    condition.containsAggregate || value.containsAggregate || anyArmAggregate rest

def optionAggregate : Option Expression → Bool
  | none => false
  | some e => e.containsAggregate

end

mutual

/-- The value of an expression made of literals only; the least integer has no negative. -/
def literalValue? : Expression → Option Value
  | literal l => some l.value
  | list items => (literalValues? items).map .list
  | map entries => (literalEntries? entries).map fun es => .map (Properties.ofList es)
  | unary .neg operand =>
    match operand.literalValue? with
    | some (.int i) => if i = Int64.minValue then none else some (.int (-i))
    | some (.float x) => some (.float x.neg)
    | _ => none
  | _ => none

def literalValues? : List Expression → Option (List Value)
  | [] => some []
  | e :: es =>
    match e.literalValue? with
    | some v => (literalValues? es).map (v :: ·)
    | none => none

def literalEntries? : List (String × Expression) → Option (List (String × Value))
  | [] => some []
  | (key, e) :: rest =>
    match e.literalValue? with
    | some v => (literalEntries? rest).map ((key, v) :: ·)
    | none => none

end

/-- The name by which a sort expression is looked up among the columns. -/
def sortName : Expression → String
  | var name => name
  | property name key => name ++ "." ++ key
  | e => e.text

end Expression

end QueryPlan
