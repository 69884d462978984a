import QueryPlan.Lowering.Query
import QueryPlan.Proofs.Draft.Outcome

/-!
# Lowering without a draft

Between two clauses a draft holds at most one plan, and nothing is queued or bound. What a clause
does is then a function of that plan and of the counter for nodes without a variable. `Clause.step`
is this function, written without a draft. Facts about queries are proved of steps.
-/

namespace QueryPlan

/-! ## The steps -/

/-- The plan that reads the whole graph. -/
def GraphSource.scan (catalog : Catalog) : GraphSource → Except Error Plan
  | .entity graph => Plan.scan graph
  | .substitution home labels => Plan.substitutionScan catalog home labels

/-- The entity that a write goes to. -/
def GraphSource.target : GraphSource → Except Error Entity
  | .entity graph => .ok graph
  | .substitution home _ =>
    .error (.unsupportedOperation
      ("cannot modify the substitution graph of namespace " ++ home.text))

/-- The plan so far, or the whole graph if there is none. -/
def GraphSource.inputOr (catalog : Catalog) (source : GraphSource) :
    Option Plan → Except Error Plan
  | some p => .ok p
  | none => source.scan catalog

/-- The fields that a clause sees. -/
def scopeOf (top : Option Plan) : Schema := (top.map Plan.schema).getD []

/-- Adds bindings in order; of two with one name the first stays. -/
def Binding.extend (bound : List Binding) : List Binding → List Binding
  | [] => bound
  | b :: rest =>
    if bound.any (·.name = b.name) then Binding.extend bound rest
    else Binding.extend (bound ++ [b]) rest

/-- Binds variables over a plan, or more of them if the plan binds some already. -/
def Plan.extendMatch (top : Plan) (calls : List Binding) : Except Error Plan := do
  require (top.model = .graph)
    (.unsupportedInput ("MATCH requires a GRAPH input, found " ++ top.model.text))
  let (input, bound) ← Drafting.matchBase top
  let bindings := Binding.extend bound calls
  Plan.patternMatch input (bindings.map Binding.expr) (bindings.map Binding.name)

/-- Filters a plan. Over the bare graph the condition is computed first. -/
def Plan.restrict (p : Plan) (predicate : Expr) : Except Error Plan :=
  if p.schema.isSingle .graph then do
    let project ← Plan.projectColumns p [⟨some (exprName 0), predicate⟩]
    Plan.filter project (.ref 0 predicate.ty)
  else Plan.filter p predicate

/-- Filters a plan by a condition, if there is one. -/
def Plan.restrictBy (p : Plan) : Option Expression → Except Error Plan
  | none => .ok p
  | some condition => do
    let predicate ← condition.toExpr p.schema
    p.restrict predicate

/-- Adds nodes in order; of two with one key the first stays. -/
def KeyedNode.collect (nodes : List (String × Node)) : List KeyedNode → List (String × Node)
  | [] => nodes
  | k :: ks =>
    if nodes.any (·.1 = k.key) then KeyedNode.collect nodes ks
    else KeyedNode.collect (nodes ++ [(k.key, k.node)]) ks

/-- What is inserted: literals, or over a plan columns that create something for each row. -/
def insertInput (top : Option Plan) (nodes : List (String × Node)) (edges : List BoundEdge) :
    Except Error Plan :=
  match top with
  | none => Plan.values ⟨nodes.map Prod.snd, edges.map BoundEdge.edge, [], []⟩
  | some p => do
    let columns ← newElements p.schema nodes edges
    Plan.projectColumns p columns

/-- Inserts nodes and edges. -/
def GraphSource.insert (source : GraphSource) (top : Option Plan) (nodes : List (String × Node))
    (edges : List BoundEdge) : Except Error Plan :=
  if nodes.isEmpty && edges.isEmpty then .error (.emptyOperation "nothing to create")
  else do
    let entity ← source.target
    let input ← insertInput top nodes edges
    Plan.modify entity input .insert [] []

/-- Changes or deletes what is queued. -/
def GraphSource.write (source : GraphSource) (top : Option Plan) (write : Write)
    (queued : List (Option String × Expr)) : Except Error Plan :=
  if queued.isEmpty then
    .error (.emptyOperation ("empty " ++ Text.lower write.text ++ " is not permitted"))
  else do
    let entity ← source.target
    let input ← Drafting.topOf top.toList
    let targets ← Drafting.targetsOf queued
    Plan.modify entity input write (targets.map Binding.name) (targets.map Binding.expr)

/-- An `UNWIND` after the clauses before it. -/
def UnwindClause.step (c : UnwindClause) : Option Plan → Except Error Plan
  | none => c.standalone
  | some p => c.over p

/-- A `CALL`, which must come first. -/
def CallClause.step (home : NamespaceId) (c : CallClause) : Option Plan → Except Error Plan
  | none => do
    let arguments ← Expression.toExprs [] c.args
    Plan.call ⟨home, c.procedure, arguments, c.yieldAll, c.yieldItems⟩
  | some _ => .error (.unsupportedOperation "CALL is only supported as a standalone clause")

/-- Matches the patterns of a clause. -/
def MatchClause.step (catalog : Catalog) (source : GraphSource) (top : Option Plan) (n : Nat)
    (c : MatchClause) : Except Error (Plan × Nat) := do
  require (!c.optional) (.unsupportedOperation "OPTIONAL MATCH is not supported")
  let (calls, n) ← patternCalls n [] c.patterns
  let input ← source.inputOr catalog top
  let p ← input.extendMatch calls
  let p ← p.restrictBy c.condition
  return (p, n)

/-- Creates what the patterns of a clause describe. -/
def CreateClause.step (source : GraphSource) (top : Option Plan) (n : Nat) (c : CreateClause) :
    Except Error (Plan × Nat) := do
  let (created, n) ← createPatterns (scopeOf top) n c.patterns
  let p ← source.insert top (KeyedNode.collect [] created.nodes) created.edges
  return (p, n)

/-- What a clause makes of the plan before it and of the counter. -/
def Clause.step (catalog : Catalog) (source : GraphSource) (home : NamespaceId)
    (top : Option Plan) (n : Nat) (c : Clause) : Except Error (Option Plan × Nat) :=
  match c with
  | .matching m => do
    let (p, n) ← m.step catalog source top n
    return (some p, n)
  | .passing w => do
    let input ← source.inputOr catalog top
    let p ← w.projection.toPlan input
    let p ← p.restrictBy w.condition
    return (some p, n)
  | .returning r => do
    let input ← source.inputOr catalog top
    let p ← r.projection.toPlan input
    return (some p, n)
  | .creating create => do
    let (p, n) ← create.step source top n
    return (some p, n)
  | .setting s => do
    let queued ← queueSets (scopeOf top) [] s.items
    let p ← source.write top .update queued
    return (some p, n)
  | .removing r => do
    let queued ← queueRemoves (scopeOf top) [] r.items
    let p ← source.write top .update queued
    return (some p, n)
  | .deleting delete => do
    let queued ← queueDeletes (scopeOf top) [] delete.vars
    let p ← source.write top .delete queued
    return (some p, n)
  | .unwinding u => do
    let p ← u.step top
    return (some p, n)
  | .calling call => do
    let p ← call.step home top
    return (some p, n)
  | .onGraph _ => .ok (top, n)
  | .merging _ | .repeating _ _ _ _ | .loading _ =>
    .error (.unsupportedOperation (c.keyword ++ " is not supported"))

/-- The kind of query after a clause. -/
def Clause.kindAfter (kind : Option QueryKind) : Clause → Option QueryKind
  | .matching _ | .calling _ => kind.or (some .select)
  | .creating _ => some .insert
  | .setting _ | .removing _ => some .update
  | .deleting _ => some .delete
  | _ => kind

/-- The steps of clauses in order, the first of them at position `index`. -/
def Clause.steps (catalog : Catalog) (source : GraphSource) (home : NamespaceId) (index : Nat)
    (top : Option Plan) (n : Nat) : List Clause → Except Error (Option Plan × Nat)
  | [] => .ok (top, n)
  | c :: cs =>
    match c.step catalog source home top n with
    | .ok (top, n) => Clause.steps catalog source home (index + 1) top n cs
    | .error e => .error (e.atClause index c.keyword)

/-- The plan left after the last clause, and the kind of the query. -/
def finalPlan (kind : Option QueryKind) : Option Plan → Except Error (Plan × QueryKind)
  | none => .error (.invalidPlan "query produced no plan")
  | some root => .ok (root, kind.getD .select)

/-- The draft between two clauses. -/
def Draft.between (catalog : Catalog) (source : GraphSource) (top : Option Plan)
    (kind : Option QueryKind) (n : Nat) : Draft :=
  ⟨catalog, source, top.toList, [], [], [], kind, n⟩

/-- A query starts between clauses too. -/
theorem Draft.empty_eq_between (catalog : Catalog) (source : GraphSource) :
    Draft.empty catalog source = .between catalog source none none 0 := rfl

end QueryPlan
