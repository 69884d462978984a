import QueryPlan.Lowering.Projection
import QueryPlan.Lowering.Write

/-!
# Lowering queries

The clauses of a query are lowered one after the other, each onto the draft that the clauses before
it left. The first clause that fails fails the query, and the error is tagged with that clause.
-/

namespace QueryPlan

/-- The literal list that an `UNWIND` at the start of a query runs over: null is the empty list, and
any value but a list a list of itself. -/
def Value.asList : Value → Value
  | .list items => .list items
  | .null => .list []
  | v => .list [v]

/-- An `UNWIND` at the start of a query, over a literal. -/
def UnwindClause.standalone (c : UnwindClause) : Except Error Plan :=
  match c.expression.literalValue? with
  | none =>
    .error (.unsupportedOperation "UNWIND without a preceding clause needs a literal list")
  | some v => do
    let rows ← Plan.values ⟨[], [], [[v.asList]], [c.asName]⟩
    Plan.unwind rows 0 c.asName

/-- The expression as a list. -/
def Expr.asList (e : Expr) : Except Error Expr :=
  if e.ty.isList then .ok e else Expr.call .toList [e]

/-- An `UNWIND` over a plan. A list that is not a field of the plan is made one first. -/
def UnwindClause.over (c : UnwindClause) (input : Plan) : Except Error Plan := do
  let e ← c.expression.toExpr input.schema
  let e ← e.asList
  match e.ref? with
  | some index => Plan.unwind input index c.asName
  | none =>
    let project ← Plan.projectColumns input (starColumns input.schema ++ [⟨some c.asName, e⟩])
    Plan.unwind project input.schema.length c.asName

namespace Drafting

/-- Runs a computation that draws keys from the counter. -/
def counting {α : Type} (f : Nat → Except Error (α × Nat)) : Drafting α := do
  let d ← get
  let (a, n) ← lift (f d.anonymous)
  set { d with anonymous := n }
  return a

/-- Works the queue over. -/
def queueing (f : Schema → List (Option String × Expr) →
    Except Error (List (Option String × Expr))) : Drafting Unit := do
  let d ← get
  let queue ← lift (f d.scope d.pending)
  set { d with pending := queue }

/-- Makes another plan of the one on top of the stack. -/
def replaceTop (f : Plan → Except Error Plan) : Drafting Unit := do
  let input ← pop
  push (← lift (f input))

/-- Filters by a condition. -/
def whereClause : Option Expression → Drafting Unit
  | none => pure ()
  | some condition => do
    let d ← get
    let predicate ← lift (condition.toExpr d.scope)
    add none predicate
    combineFilter

/-- Queues bindings in order. -/
def addAll : List Binding → Drafting Unit
  | [] => pure ()
  | b :: bs => do
    add (some b.name) b.expr
    addAll bs

/-- Has nodes created in order. -/
def bindNodes : List KeyedNode → Drafting Unit
  | [] => pure ()
  | k :: ks => do
    let _ ← bindNode k.key k.node
    bindNodes ks

/-- Has edges created in order. -/
def bindEdges : List BoundEdge → Drafting Unit
  | [] => pure ()
  | e :: es => do
    bindEdge e
    bindEdges es

def matchClause (c : MatchClause) : Drafting Unit := do
  if c.optional then throw (.unsupportedOperation "OPTIONAL MATCH is not supported")
  setKindIfUnset .select
  let calls ← counting fun n => patternCalls n [] c.patterns
  addAll calls
  combineMatch
  whereClause c.condition

def projection (p : Projection) : Drafting Unit := do
  defaultScan
  replaceTop p.toPlan

def createClause (c : CreateClause) : Drafting Unit := do
  setKind .insert
  let d ← get
  let created ← counting fun n => createPatterns d.scope n c.patterns
  bindNodes created.nodes
  bindEdges created.edges
  combineValues

def unwindClause (c : UnwindClause) : Drafting Unit := do
  let d ← get
  if d.stack.isEmpty then push (← lift c.standalone)
  else replaceTop c.over

def callClause (home : NamespaceId) (c : CallClause) : Drafting Unit := do
  let d ← get
  if !d.stack.isEmpty then
    throw (.unsupportedOperation "CALL is only supported as a standalone clause")
  let arguments ← lift (Expression.toExprs [] c.args)
  setKindIfUnset .select
  push (← lift (Plan.call ⟨home, c.procedure, arguments, c.yieldAll, c.yieldItems⟩))

/-- Lowers one clause. -/
def clause (home : NamespaceId) (c : Clause) : Drafting Unit :=
  match c with
  | .matching m => matchClause m
  | .passing w => do
    projection w.projection
    whereClause w.condition
  | .returning r => projection r.projection
  | .creating create => createClause create
  | .setting s => do
    setKind .update
    queueing fun scope queue => queueSets scope queue s.items
    combineModify .update
  | .removing r => do
    setKind .update
    queueing fun scope queue => queueRemoves scope queue r.items
    combineModify .update
  | .deleting delete => do
    setKind .delete
    queueing fun scope queue => queueDeletes scope queue delete.vars
    combineModify .delete
  | .unwinding u => unwindClause u
  | .calling call => callClause home call
  | .onGraph _ => pure ()
  | .merging _ | .repeating _ _ _ _ | .loading _ =>
    throw (.unsupportedOperation (c.keyword ++ " is not supported"))

/-- Lowers clauses in order, the first of them at position `index`. -/
def clauses (home : NamespaceId) (index : Nat) : List Clause → Drafting Unit
  | [] => pure ()
  | c :: cs => fun d =>
    match clause home c d with
    | .ok _ d => clauses home (index + 1) cs d
    | .error e d => .error (e.atClause index c.keyword) d

end Drafting

/-- The plan of a single query and its kind. -/
def SingleQuery.toPlan (q : SingleQuery) (catalog : Catalog) (home : NamespaceId)
    (allowSubstitution : Bool) : Except Error (Plan × QueryKind) := do
  let source ← GraphSource.resolve catalog home allowSubstitution (mentionedLabels q.clauses)
  match Drafting.clauses home 0 q.clauses (Draft.empty catalog source) with
  | .ok _ d => d.finish
  | .error e _ => throw e

/-- The plan of a query and its kind. -/
def Query.toPlan (q : Query) (catalog : Catalog) (home : NamespaceId) (allowSubstitution : Bool) :
    Except Error (Plan × QueryKind) :=
  match q with
  | .single q => q.toPlan catalog home allowSubstitution
  | .union _ _ => .error (.unsupportedOperation "UNION is not supported")
  | .periodicCommit _ _ =>
    .error (.unsupportedOperation "USING PERIODIC COMMIT is not supported")

end QueryPlan
