import QueryPlan.Proofs.Compiler.Outcome
import QueryPlan.Proofs.Expr.Positions
import QueryPlan.Proofs.Lowering.Projection

/-!
# Rows, projections and queries by position

Literal rows take the types of their columns from the first row, column by column. A projection
divides the names of its columns where those of the star end, and keeps as many columns of a sorted
plan as it has names. Both are written by position here, and agree with the forms that the compiler
runs. That the reads are in range follows from how long the lists are: rows are as long as the names
of the columns, and no step between the names and the sorted plan loses a column.
-/

namespace QueryPlan

/-! ## Literal rows -/

namespace LiteralRows

/-- The type of the column at position `j`: that of the value which the first row has there. -/
def columnTyAt (rows : List (List Value)) (j : Nat) : Except Stop Ty :=
  match rows with
  | [] => .ok .any
  | row :: _ => do return (← readAt row j).ty

/-- The fields of the columns from position `j` on. -/
def columnFieldsAt (rows : List (List Value)) (j : Nat) : List String → Except Stop Schema
  | [] => .ok []
  | name :: names => do
    let ty ← columnTyAt rows j
    return ⟨name, ty⟩ :: (← columnFieldsAt rows (j + 1) names)

theorem columnFieldsAt_nil (j : Nat) (names : List String) :
    columnFieldsAt [] j names = .ok (columnFields names []) := by
  induction names generalizing j with
  | nil => rfl
  | cons name names ih =>
      rw [columnFieldsAt, ih (j + 1)]
      rfl

/-- A row that has a value for each name left is read to its end. -/
theorem columnFieldsAt_cons {row : List Value} {rows : List (List Value)} {j : Nat}
    {names : List String} (h : row.length = j + names.length) :
    columnFieldsAt (row :: rows) j names = .ok (columnFields names [row.drop j]) := by
  induction names generalizing j with
  | nil => rfl
  | cons name names ih =>
      have hlt : j < row.length := by
        rw [h, List.length_cons]
        omega
      have hread : readAt row j = .ok row[j] := readAt_of_getElem? (List.getElem?_eq_getElem hlt)
      have hrest : row.length = j + 1 + names.length := by
        rw [h, List.length_cons]
        omega
      rw [columnFieldsAt, columnTyAt, hread, ih hrest, columnFields, columnFields,
        List.drop_eq_getElem_cons hlt]
      rfl

/-- Rows of the right length are read in range. -/
theorem columnFieldsAt_eq {v : LiteralRows} (h : ∀ row ∈ v.rows, row.length = v.columns.length) :
    columnFieldsAt v.rows 0 v.columns = .ok (columnFields v.columns v.rows) := by
  cases hrows : v.rows with
  | nil => exact columnFieldsAt_nil 0 v.columns
  | cons row rows =>
      rw [hrows] at h
      have hrow : row.length = 0 + v.columns.length := by
        rw [Nat.zero_add]
        exact h row List.mem_cons_self
      exact columnFieldsAt_cons hrow

end LiteralRows

namespace Plan

/-- Nodes, edges between them, and rows, whose first is read by position. -/
def valuesAt (v : LiteralRows) : Except Stop Plan := do
  inRange <| match v.rows.find? (·.length ≠ v.columns.length) with
    | some row =>
      throw (.invalidPlan s!"values row has {row.length} columns, expected {v.columns.length}")
    | none => pure ()
  inRange <| match v.edges.find? (!v.holdsEnds ·) with
    | some e =>
      throw (.invalidPlan ("values edge " ++ e.text ++ " refers to a node it does not create"))
    | none => pure ()
  let columns ← LiteralRows.columnFieldsAt v.rows 0 v.columns
  inRange (build (.values v) [] (v.nodes.map (fun n => ⟨n.var.getD "null", .node⟩) ++ columns)
    .graph)

/-- **Literal rows are read in range**: a row of another length is reported before. -/
theorem valuesAt_eq (v : LiteralRows) : valuesAt v = inRange (values v) := by
  unfold valuesAt values
  cases hrows : v.rows.find? (·.length ≠ v.columns.length) with
  | some row => rfl
  | none =>
      cases v.edges.find? (!v.holdsEnds ·) with
      | some e => rfl
      | none =>
          have hlengths : ∀ row ∈ v.rows, row.length = v.columns.length := by
            simpa using hrows
          rw [LiteralRows.columnFieldsAt_eq hlengths]
          rfl

end Plan

/-! ## The names of columns -/

theorem Schema.length_refs (s : Schema) (start : Nat) : (s.refs start).length = s.length := by
  induction s generalizing start with
  | nil => rfl
  | cons f s ih => exact congrArg (· + 1) (ih (start + 1))

/-- The columns of a star are the references to the fields, under the names of the fields. -/
theorem starColumns_eq (s : Schema) :
    starColumns s = (s.names.zip (s.refs 0)).map fun (name, e) => ⟨some name, e⟩ := by
  rw [starColumns, Schema.names, List.zip_map_left, List.map_map]
  rfl

namespace Projection

variable {p : Projection} {scope : Schema} {input sorted : Plan}

/-- A sorted plan has all the columns asked for, whatever columns it is sorted by. -/
theorem length_names_le {columns hidden : List Column} {project : Plan}
    (hcolumns : p.columns scope = .ok columns)
    (hproject : Plan.projectColumns input (columns ++ hidden) = .ok project)
    (hsorted : p.sort project = .ok sorted) : (p.names scope).length ≤ sorted.schema.length := by
  have hschema : sorted.schema = Column.fields (columns ++ hidden) := by
    obtain ⟨keys, offset, limit, -, -, -, rfl⟩ := sort_eq_sorting hsorted
    exact congrArg Plan.schema ((Plan.yields_projectColumns _ _).result hproject)
  rw [hschema, Column.fields_append, List.length_append, length_fields hcolumns]
  exact Nat.le_add_right _ _

/-! ## Projections -/

/-- The first `n` columns of a plan, as a slice of its schema. -/
def visibleAt (n : Nat) (node : Plan) : Except Stop Plan := do
  let fields ← readTo node.schema n
  inRange (Plan.projectColumns node (starColumns fields))

end Projection

/-- Divides items, given as expressions and their names, into the columns of the group's key and the
aggregates. -/
def splitNamed (scope : Schema) :
    List (Expression × String) → Except Error (List Column × List AggregateItem)
  | [] => .ok ([], [])
  | (expression, name) :: items =>
    if expression.containsAggregate then do
      let a ← aggregateItem name expression
      let (keys, aggregates) ← splitNamed scope items
      return (keys, a :: aggregates)
    else do
      let e ← expression.toExpr scope
      let (keys, aggregates) ← splitNamed scope items
      return (⟨some name, e⟩ :: keys, aggregates)

theorem splitNamed_zip (scope : Schema) (items : List ReturnItem) :
    splitNamed scope ((items.map ReturnItem.expression).zip (items.map ReturnItem.name)) =
      splitItems scope items := by
  induction items with
  | nil => rfl
  | cons item items ih =>
      rw [List.map_cons, List.map_cons, List.zip_cons_cons, splitNamed, splitItems, ih]

namespace Projection

variable (p : Projection) (input : Plan)

/-- The plan grouped by the columns without aggregates. The names of all columns are divided where
those of the star end. -/
def groupAt (names : List String) : Except Stop Plan := do
  let scope := input.schema
  let star := (p.starFields scope).refs 0
  let starNames ← readTo names star.length
  let itemNames ← readFrom names star.length
  let (itemKeys, items) ←
    inRange (splitNamed scope ((p.items.map ReturnItem.expression).zip itemNames))
  let keys := (starNames.zip star).map (fun (name, e) => ⟨some name, e⟩) ++ itemKeys
  let (columns, calls) ← inRange (aggregateCalls scope keys.length 0 items)
  let project ← inRange (Plan.projectColumns input (keys ++ columns))
  inRange (Plan.aggregate project (List.range keys.length) calls)

theorem groupAt_eq : p.groupAt input (p.names input.schema) = inRange (p.group input) := by
  have hstar : (p.starFields input.schema).names.length =
      ((p.starFields input.schema).refs 0).length := by
    rw [Schema.length_refs, Schema.names, List.length_map]
  unfold groupAt group
  dsimp only
  rw [names, readTo_append hstar, readFrom_append hstar, starColumns_eq]
  change inRange (splitNamed input.schema
    ((p.items.map ReturnItem.expression).zip (p.items.map ReturnItem.name))) >>= _ = _
  rw [splitNamed_zip]
  refine bind_inRange fun split _ => ?_
  refine bind_inRange fun grouped _ => ?_
  exact bind_inRange fun _ _ => rfl

/-- The projection of a plan, with its slices. -/
def toPlanAt : Except Stop Plan := do
  let scope := input.schema
  let names := p.names scope
  inRange (require (!names.isEmpty) (.invalidPlan "projection without items"))
  let twice := duplicateNames names
  inRange (require twice.isEmpty (.invalidPlan ("duplicate column name: " ++ commas twice)))
  if p.items.any (·.expression.containsAggregate) then
    let groups ← p.groupAt input names
    inRange (p.sortGroups groups)
  else
    let columns ← inRange (p.columns scope)
    if p.isSorted then
      let hidden ← inRange (hiddenColumns scope names p.orderBy)
      let project ← inRange (Plan.projectColumns input (columns ++ hidden))
      let sorted ← inRange (p.sort project)
      if hidden.isEmpty then return sorted else visibleAt names.length sorted
    else inRange (Plan.projectColumns input columns)

/-- **Projections are sliced in range.** -/
theorem toPlanAt_eq : p.toPlanAt input = inRange (p.toPlan input) := by
  refine bind_inRange fun _ _ => ?_
  refine bind_inRange fun _ _ => ?_
  split
  · rw [groupAt_eq]
    exact bind_inRange fun _ _ => rfl
  · refine bind_inRange fun columns hcolumns => ?_
    split
    · refine bind_inRange fun hidden _ => ?_
      refine bind_inRange fun project hproject => ?_
      refine bind_inRange fun sorted hsorted => ?_
      split
      · rfl
      · -- Columns to sort by stand behind those asked for.
        rw [visibleAt, readTo_of_le (length_names_le hcolumns hproject hsorted)]
        rfl
    · rfl

end Projection

/-! ## Queries -/

namespace Compiler

/-- Every query has a plan or an error, and the error is no fault inside the library. -/
theorem compile_ok_or_error (c : Compiler) (q : Query) :
    (∃ compiled, (c.compile q).1 = .ok compiled) ∨
      ∃ e, (c.compile q).1 = .error e ∧ ∀ what, e.root ≠ .internal what := by
  cases hplan : q.toPlan c.catalog c.settings.home c.settings.allowSubstitution with
  | ok r => exact Or.inl (exists_compile hplan)
  | error e =>
      refine Or.inr ⟨e, ?_, Query.toPlan_root_ne hplan⟩
      rw [compile_of_error hplan]

/-- **No read is out of range.** Whatever the operator, the rows, the schema or the projection, and
however long its lists are, reading them by position comes to the outcome that the library computes,
and nothing is read where nothing is. So every query that is compiled ends in a plan or in an error
that the library reports. -/
theorem reads_stay_in_range :
    (∀ (op : Operator) (operands : List Expr),
      op.resultTypeAt operands = inRange (op.resultType operands)) ∧
    (∀ v : LiteralRows, Plan.valuesAt v = inRange (Plan.values v)) ∧
    (∀ (s : Schema) (name : String), s.findAt name = inRange (.ok (s.find? name))) ∧
    (∀ (s : Schema) (ty : Ty), s.isSingleAt ty = inRange (.ok (s.isSingle ty))) ∧
    (∀ (p : Projection) (input : Plan), p.toPlanAt input = inRange (p.toPlan input)) ∧
    (∀ (α : Type) (x : Except Error α), inRange x ≠ .error .outOfRange) ∧
    ∀ (c : Compiler) (q : Query), (∃ compiled, (c.compile q).1 = .ok compiled) ∨
      ∃ e, (c.compile q).1 = .error e ∧ ∀ what, e.root ≠ .internal what :=
  ⟨Operator.resultTypeAt_eq, Plan.valuesAt_eq, Schema.findAt_eq, Schema.isSingleAt_eq,
    Projection.toPlanAt_eq, fun _ => inRange_ne_outOfRange, compile_ok_or_error⟩

end Compiler

end QueryPlan
