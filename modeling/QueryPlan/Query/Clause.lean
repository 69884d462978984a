import QueryPlan.Query.Expression

/-!
# Clauses of a query

A query is a list of clauses. Patterns are paths of nodes and relationships; a node may stand alone.
-/

namespace QueryPlan

/-- Where something stands in the text of a query: bytes from `start` up to `stop`, beginning in a
line and column counted from one. -/
structure Span where
  start : Nat
  stop : Nat
  line : Nat
  column : Nat
deriving DecidableEq, Repr

def Span.text (s : Span) : String := s!"{s.line}:{s.column}"

structure NodePattern where
  var : Option String
  labels : List String
  properties : List (String × Expression)
  span : Option Span

/-- Bounds on the number of hops. A missing lower bound is one, a missing upper bound is none. -/
structure HopRange where
  least : Option Nat
  most : Option Nat
deriving DecidableEq, Repr

/-- A relationship and the node it leads to. -/
structure EdgePattern where
  var : Option String
  types : List String
  direction : Direction
  properties : List (String × Expression)
  range : Option HopRange
  target : NodePattern
  span : Option Span

structure PathPattern where
  var : Option String
  source : NodePattern
  edges : List EdgePattern
  span : Option Span

inductive Pattern
  | node (n : NodePattern)
  | path (p : PathPattern)

namespace Pattern

/-- The variable of the whole path. -/
def var : Pattern → Option String
  | node _ => none
  | path p => p.var

/-- The first node. -/
def source : Pattern → NodePattern
  | node n => n
  | path p => p.source

def edges : Pattern → List EdgePattern
  | node _ => []
  | path p => p.edges

/-- All nodes, in order. -/
def nodes (p : Pattern) : List NodePattern := p.source :: p.edges.map EdgePattern.target

end Pattern

structure MatchClause where
  optional : Bool
  patterns : List Pattern
  condition : Option Expression
  span : Option Span

/-- A result column: an expression, perhaps under another name. -/
structure ReturnItem where
  expression : Expression
  asName : Option String
  span : Option Span

/-- The column's name: the new one, or the text of the expression. -/
def ReturnItem.name (item : ReturnItem) : String :=
  item.asName.getD item.expression.text

structure OrderItem where
  expression : Expression
  order : SortOrder

/-- What `RETURN` and `WITH` have in common. -/
structure Projection where
  distinct : Bool
  star : Bool
  items : List ReturnItem
  orderBy : List OrderItem
  skip : Option Expression
  limit : Option Expression

/-- Whether the rows are put in order or cut off. -/
def Projection.isSorted (p : Projection) : Bool :=
  !p.orderBy.isEmpty || p.skip.isSome || p.limit.isSome

structure ReturnClause where
  projection : Projection
  span : Option Span

structure WithClause where
  projection : Projection
  condition : Option Expression
  span : Option Span

structure CreateClause where
  patterns : List Pattern
  span : Option Span

inductive SetItem
  | property (var key : String) (value : Expression)
  | replace (var : String) (value : Expression)
  | merge (var : String) (value : Expression)
  | labels (var : String) (labels : List String)

def SetItem.var : SetItem → String
  | property name _ _ | replace name _ | merge name _ | labels name _ => name

structure SetClause where
  items : List SetItem
  span : Option Span

inductive RemoveItem
  | property (var key : String)
  | labels (var : String) (labels : List String)

def RemoveItem.var : RemoveItem → String
  | property name _ | labels name _ => name

structure RemoveClause where
  items : List RemoveItem
  span : Option Span

structure DeleteClause where
  vars : List String
  detach : Bool
  span : Option Span

structure UnwindClause where
  expression : Expression
  asName : String
  span : Option Span

structure CallClause where
  procedure : String
  args : List Expression
  yieldAll : Bool
  yieldItems : List String
  span : Option Span

structure UseClause where
  graph : String
  span : Option Span

structure MergeClause where
  pattern : Pattern
  span : Option Span

structure LoadCsvClause where
  url : String
  var : String
  withHeaders : Bool
  span : Option Span

inductive Clause
  | matching (c : MatchClause)
  | passing (c : WithClause)
  | returning (c : ReturnClause)
  | creating (c : CreateClause)
  | setting (c : SetClause)
  | removing (c : RemoveClause)
  | deleting (c : DeleteClause)
  | unwinding (c : UnwindClause)
  | calling (c : CallClause)
  | onGraph (c : UseClause)
  | merging (c : MergeClause)
  | repeating (name : String) (list : Expression) (clauses : List Clause) (span : Option Span)
  | loading (c : LoadCsvClause)

namespace Clause

def keyword : Clause → String
  | matching c => if c.optional then "OPTIONAL MATCH" else "MATCH"
  | passing _ => "WITH"
  | returning _ => "RETURN"
  | creating _ => "CREATE"
  | setting _ => "SET"
  | removing _ => "REMOVE"
  | deleting c => if c.detach then "DETACH DELETE" else "DELETE"
  | unwinding _ => "UNWIND"
  | calling _ => "CALL"
  | onGraph _ => "USE"
  | merging _ => "MERGE"
  | repeating _ _ _ _ => "FOREACH"
  | loading _ => "LOAD CSV"

/-- Where the clause stands in the text of the query, if that is known. -/
def place? : Clause → Option Span
  | matching c => c.span
  | passing c => c.span
  | returning c => c.span
  | creating c => c.span
  | setting c => c.span
  | removing c => c.span
  | deleting c => c.span
  | unwinding c => c.span
  | calling c => c.span
  | onGraph c => c.span
  | merging c => c.span
  | repeating _ _ _ span => span
  | loading c => c.span

/-- The patterns that a clause matches or creates. -/
def patterns : Clause → List Pattern
  | matching c => c.patterns
  | creating c => c.patterns
  | merging c => [c.pattern]
  | _ => []

/-- The variables that a clause changes, one for each of its items. -/
def changed : Clause → List String
  | setting c => c.items.map SetItem.var
  | removing c => c.items.map RemoveItem.var
  | _ => []

end Clause

/-- Clauses in the order they are carried out. -/
structure SingleQuery where
  clauses : List Clause
  span : Option Span

inductive Query
  | single (q : SingleQuery)
  | union (queries : List SingleQuery) (all : Bool)
  | periodicCommit (batchSize : Option Nat) (query : SingleQuery)

/-- The single queries of a query. -/
def Query.parts : Query → List SingleQuery
  | single q => [q]
  | union queries _ => queries
  | periodicCommit _ q => [q]

end QueryPlan
