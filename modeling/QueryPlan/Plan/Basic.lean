import QueryPlan.Catalog
import QueryPlan.Expr.Basic

/-!
# Plans

A plan is a tree of operators. Each node holds an operator with its payload, the plans it reads, the
schema it produces and the data model it belongs to. Nodes are made by the functions of
`QueryPlan.Plan.Build`, which derive schema and model and check the payload against the inputs.

Whoever keeps plans may tag them with numbers, so that one kept plan can be told from another that
merely looks the same. A newly made node has no tag. Putting a plan on a shelf
(`QueryPlan.Plan.Shelf`) tags all its nodes.
-/

namespace QueryPlan

/-- What a query does. -/
inductive QueryKind
  | select
  | insert
  | update
  | delete
deriving DecidableEq, Repr

def QueryKind.text : QueryKind → String
  | select => "SELECT"
  | insert => "INSERT"
  | update => "UPDATE"
  | delete => "DELETE"

/-- What a write does with its targets. -/
inductive Write
  | insert
  | update
  | delete
deriving DecidableEq, Repr

def Write.text : Write → String
  | insert => "INSERT"
  | update => "UPDATE"
  | delete => "DELETE"

inductive SortOrder
  | ascending
  | descending
deriving DecidableEq, Repr

def SortOrder.text : SortOrder → String
  | ascending => "ASC"
  | descending => "DESC"

structure SortKey where
  index : Nat
  order : SortOrder
deriving DecidableEq, Repr

inductive AggregateFunction
  | count
  | sum
  | avg
  | min
  | max
  | collect
deriving DecidableEq, Repr

namespace AggregateFunction

def text : AggregateFunction → String
  | count => "COUNT"
  | sum => "SUM"
  | avg => "AVG"
  | min => "MIN"
  | max => "MAX"
  | collect => "COLLECT"

/-- Reads the name of an aggregate function; the case of ASCII letters does not matter. -/
def ofName? (name : String) : Option AggregateFunction :=
  match Text.lower name with
  | "count" => some count
  | "sum" => some sum
  | "avg" => some avg
  | "min" => some min
  | "max" => some max
  | "collect" => some collect
  | _ => none

end AggregateFunction

/-- An aggregate over fields of the input; over none, it counts rows. -/
structure Aggregate where
  function : AggregateFunction
  args : List Nat
  distinct : Bool
  name : String
deriving DecidableEq, Repr

/-- An expression and the name of the field it yields; without a name it yields none. -/
structure Column where
  name : Option String
  expr : Expr

/-- An expression under a name. -/
structure Binding where
  name : String
  expr : Expr

/-- Nodes, edges and rows written out. -/
structure LiteralRows where
  nodes : List Node
  edges : List Edge
  rows : List (List Value)
  columns : List String

/-- A call of a catalog procedure, and the fields taken from its result. -/
structure ProcedureCall where
  home : NamespaceId
  procedure : String
  arguments : List Expr
  yieldAll : Bool
  yieldItems : List String

/-- A change of data model. -/
structure Conversion where
  /-- The types of the elements to convert, in order. -/
  order : List Ty
  operation : QueryKind
  source : Model
  target : Model
  /-- Names of the inputs, or none. -/
  names : List String

inductive Op
  | scan (entity : Entity)
  | filter (predicate : Expr)
  | project (columns : List Column)
  /-- Binds the variables of patterns against a graph. -/
  | bind (bindings : List Binding)
  | aggregate (keys : List Nat) (calls : List Aggregate)
  | modify (entity : Entity) (write : Write) (targets : List Binding)
  | unwind (index : Nat) (asName : String)
  | values (rows : LiteralRows)
  | call (call : ProcedureCall)
  | transform (conversion : Conversion)
  | sort (keys : List SortKey) (offset limit : Option Nat)

namespace Op

def kind : Op → String
  | scan _ => "Scan"
  | filter _ => "Filter"
  | project _ => "Project"
  | bind _ => "Match"
  | aggregate _ _ => "Aggregate"
  | modify _ _ _ => "Modify"
  | unwind _ _ => "Unwind"
  | values _ => "Values"
  | call _ => "Call"
  | transform _ => "Transform"
  | sort _ _ _ => "Sort"

def isTransform : Op → Bool
  | transform _ => true
  | _ => false

/-- The expressions of a payload, from left to right. -/
def exprs : Op → List Expr
  | filter predicate => [predicate]
  | project columns => columns.map Column.expr
  | bind bindings => bindings.map Binding.expr
  | modify _ _ targets => targets.map Binding.expr
  | call c => c.arguments
  | _ => []

/-- The payload over other expressions, as many as it has. -/
def withExprs (op : Op) (exprs : List Expr) : Op :=
  match op with
  | filter predicate => filter (exprs.head?.getD predicate)
  | project columns => project (columns.zipWith (fun c e => { c with expr := e }) exprs)
  | bind bindings => bind (bindings.zipWith (fun b e => { b with expr := e }) exprs)
  | modify entity write targets =>
    modify entity write (targets.zipWith (fun b e => { b with expr := e }) exprs)
  | call c => call { c with arguments := exprs }
  | op => op

end Op

structure Plan where
  tag : Option Nat
  op : Op
  inputs : List Plan
  schema : Schema
  model : Model

namespace Plan

def kind (p : Plan) : String := p.op.kind

/-- Whether two plans are one and the same object: both are tagged, alike. Of a plan without a tag
this is not known, and the answer is no. -/
def isSame (p q : Plan) : Bool := p.tag.isSome && p.tag == q.tag

/-- Tags a plan, unless it has a tag. -/
def tagWith (n : Nat) (p : Plan) : Plan := { p with tag := p.tag.or (some n) }

mutual

/-- The number of nodes. -/
def size : Plan → Nat
  | ⟨_, _, inputs, _, _⟩ => 1 + sizes inputs

def sizes : List Plan → Nat
  | [] => 0
  | p :: ps => p.size + sizes ps

end

mutual

/-- Tags every node that has no tag. The nodes are numbered from `n` on, inputs before the node that
reads them. -/
def identify (n : Nat) : Plan → Plan
  | ⟨tag, op, inputs, schema, model⟩ =>
    ⟨tag.or (some (n + sizes inputs)), op, identifyAll n inputs, schema, model⟩

def identifyAll (n : Nat) : List Plan → List Plan
  | [] => []
  | p :: ps => p.identify n :: identifyAll (n + p.size) ps

end

end Plan

end QueryPlan
